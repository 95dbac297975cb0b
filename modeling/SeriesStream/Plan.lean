import SeriesStream.Expression
import SeriesStream.Text.Quoted

namespace SeriesStream

/-- An expression under the name its results carry. -/
structure PlannedExpression where
  name : String
  expression : Expression

/-- The expression by its name and the queries it reads. -/
def PlannedExpression.render (p : PlannedExpression) : String :=
  let queries := p.expression.baseQueries.map fun q => "BaseQuery(" ++ Text.quoted q ++ ")"
  "PlannedExpression \x7b name: " ++ Text.quoted p.name ++ ", base_queries: [" ++
    String.intercalate ", " queries ++ "] \x7d"

/-- A requested range and what to compute over it. -/
structure Plan where
  start : Int
  stop : Int
  step : Int
  expressions : List PlannedExpression

/-- The queries that the expressions read, each once and in ascending order. -/
def Plan.baseQueries (p : Plan) : List BaseQuery :=
  (OrderedMap.ofList ((p.expressions.flatMap (·.expression.baseQueries)).map (·, ()))).keys

end SeriesStream
