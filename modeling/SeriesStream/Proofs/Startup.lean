import SeriesStream.Proofs.Faultless
import SeriesStream.Proofs.Json.Numeral
import SeriesStream.Run

namespace SeriesStream

open Json (Numeral)

namespace SocketAddress

theorem digit?_of_isDigit {c : Char} (h : c.isDigit = true) : digit? 10 c = some (c.toNat - 48) := by
  have hdigit := h
  simp only [Char.isDigit, Bool.and_eq_true, decide_eq_true_eq] at hdigit
  have hhigh : c.toNat ≤ 57 := hdigit.2
  have hlt : c.toNat - 48 < 10 := by omega
  simp [digit?, h, hlt]

/-- A character that is no digit is none in base ten, letters included. -/
theorem digit?_of_not_isDigit {c : Char} (h : c.isDigit = false) : digit? 10 c = none := by
  have hletter {low : Char} (hle : low ≤ c) : low.toNat ≤ c.toNat := hle
  unfold digit?
  rw [h, if_neg Bool.false_ne_true]
  refine if_neg ?_
  split
  next hsmall =>
    have hlow : 97 ≤ c.toNat := hletter hsmall.1
    omega
  next =>
    split
    next hlarge =>
      have hlow : 65 ≤ c.toNat := hletter hlarge.1
      omega
    next => omega

theorem digits_append {ds rest : List Char} (h : ∀ c ∈ ds, c.isDigit = true)
    (stop : ∀ c tail, rest = c :: tail → c.isDigit = false) :
    digits 10 (ds ++ rest) = (ds.map (·.toNat - 48), rest) := by
  induction ds with
  | nil =>
    cases rest with
    | nil => rfl
    | cons c tail => simp [digits, digit?_of_not_isDigit (stop c tail rfl)]
  | cons d ds ih =>
    obtain ⟨hd, hds⟩ := List.forall_mem_cons.mp h
    simp [digits, digit?_of_isDigit hd, ih hds]

theorem number?_toDigits {n bound : Nat} (h : n < bound) {rest : List Char}
    (stop : ∀ c tail, rest = c :: tail → c.isDigit = false) :
    number? 10 bound (Nat.toDigits 10 n ++ rest) = some (n, rest) := by
  have hdigits : digits 10 (Nat.toDigits 10 n ++ rest) = ((Nat.toDigits 10 n).map (·.toNat - 48), rest) :=
    digits_append Numeral.isDigit_toDigits stop
  have hvalue : ((Nat.toDigits 10 n).map (·.toNat - 48)).foldl (fun n d => n * 10 + d) 0 = n := by
    rw [List.foldl_map]
    exact Numeral.digitsValue_toDigits n
  obtain ⟨d, ds, hd⟩ := List.exists_cons_of_ne_nil (Nat.toDigits_ne_nil (b := 10) (n := n))
  rw [hd] at hdigits hvalue ⊢
  rw [List.map_cons] at hdigits hvalue
  simp only [number?, hdigits, hvalue]
  exact if_pos h

theorem octet?_toDigits {n : Nat} (h : n < 256) {rest : List Char}
    (stop : ∀ c tail, rest = c :: tail → c.isDigit = false) :
    octet? (Nat.toDigits 10 n ++ rest) = some (n, rest) := by
  have hshort : ∀ n < 256, ((Nat.toDigits 10 n).map (·.toNat - 48)).length ≤ 3 ∧
      (((Nat.toDigits 10 n).map (·.toNat - 48)).length = 1 ∨
        ((Nat.toDigits 10 n).map (·.toNat - 48)).head? ≠ some 0) := by
    decide +kernel
  rw [octet?, digits_append Numeral.isDigit_toDigits stop, if_pos (hshort n h)]
  exact number?_toDigits h stop

theorem service?_toDigits {n : Nat} (h : n < 65536) : service? (':' :: Nat.toDigits 10 n) = some n := by
  have hnumber : number? 10 65536 (Nat.toDigits 10 n ++ []) = some (n, []) :=
    number?_toDigits h fun c tail heq => nomatch heq
  rw [List.append_nil] at hnumber
  simp [service?, sign?, hnumber]

/-- Four octets with dots between them and a service behind a colon. -/
def dotted (a b c d service : Nat) : String := s!"{a}.{b}.{c}.{d}:{service}"

theorem toList_dotted (a b c d service : Nat) : (dotted a b c d service).toList =
    Nat.toDigits 10 a ++ '.' :: (Nat.toDigits 10 b ++ '.' :: (Nat.toDigits 10 c ++ '.' ::
      (Nat.toDigits 10 d ++ ':' :: Nat.toDigits 10 service))) := by
  have htext (n : Nat) : (toString n).toList = Nat.toDigits 10 n := Nat.toList_repr
  have hdot : (toString ".").toList = ['.'] := rfl
  have hcolon : (toString ":").toList = [':'] := rfl
  simp only [dotted, String.toList_append, htext, hdot, hcolon]
  simp

/-- A text without a bracket in front is read as four octets. -/
theorem ofString?_eq {s : String} {c : Char} {rest : List Char} (chars : s.toList = c :: rest) (bracket : c ≠ '[') :
    ofString? s = (v4? s.toList).bind fun r => (service? r.2).map fun n => ⟨.v4 r.1, n⟩ := by
  unfold ofString?
  split
  next heq =>
    rw [chars] at heq
    exact absurd (List.cons.inj heq).1 bracket
  next =>
    cases v4? s.toList with
    | none => rfl
    | some r =>
      obtain ⟨octets, behind⟩ := r
      cases hservice : service? behind <;> simp [hservice]

theorem ofString?_dotted {a b c d service : Nat} (ha : a < 256) (hb : b < 256) (hc : c < 256) (hd : d < 256)
    (hservice : service < 65536) : ofString? (dotted a b c d service) = some ⟨.v4 [a, b, c, d], service⟩ := by
  have hdot (tail : List Char) : ∀ e rest, '.' :: tail = e :: rest → e.isDigit = false := by
    intro e rest heq
    rw [← (List.cons.inj heq).1]
    rfl
  have hcolon (tail : List Char) : ∀ e rest, ':' :: tail = e :: rest → e.isDigit = false := by
    intro e rest heq
    rw [← (List.cons.inj heq).1]
    rfl
  have hv4 : v4? (dotted a b c d service).toList = some ([a, b, c, d], ':' :: Nat.toDigits 10 service) := by
    rw [toList_dotted]
    simp [v4?, octet?_toDigits ha (hdot _), octet?_toDigits hb (hdot _), octet?_toDigits hc (hdot _),
      octet?_toDigits hd (hcolon _), sign?]
  obtain ⟨e, ds, he⟩ := List.exists_cons_of_ne_nil (Nat.toDigits_ne_nil (b := 10) (n := a))
  have hchars := toList_dotted a b c d service
  rw [he, List.cons_append] at hchars
  have hbracket : e ≠ '[' := by
    rintro rfl
    have hdigit := Numeral.isDigit_toDigits (n := a) '[' (by simp [he])
    simp at hdigit
  rw [ofString?_eq hchars hbracket, hv4, Option.bind_some, service?_toDigits hservice]
  rfl

/-- Names of hosts are not looked up: what begins with one is no address. -/
theorem ofString?_of_name {s : String} {c : Char} {rest : List Char} (chars : s.toList = c :: rest)
    (bracket : c ≠ '[') (name : c.isDigit = false) : ofString? s = none := by
  have hdigits : digits 10 s.toList = ([], s.toList) := by
    rw [chars, digits, digit?_of_not_isDigit name]
  have hoctet : octet? s.toList = none := by simp [octet?, number?, hdigits]
  rw [ofString?_eq chars bracket]
  simp [v4?, hoctet]

end SocketAddress

namespace Http

/-- The settings make a server unless the sign for all origins is listed. -/
theorem ofSettings_of_wildcard {s : Settings} (listed : "*" ∈ s.server.corsOrigins) :
    Server.ofSettings s = .error .wildcardOrigin := by
  have hfilled : s.server.corsOrigins.isEmpty = false := by
    cases horigins : s.server.corsOrigins with
    | nil => simp [horigins] at listed
    | cons => rfl
  have hheader : CorsPolicy.isHeaderValue "*" = true := by decide
  simp [Server.ofSettings, CorsPolicy.ofOrigins, hfilled, listed, hheader, bind, Except.bind]

end Http

namespace Run

variable {e : Environment} {o : OptionValues} {s : Settings}

/-- Whichever way settings were found, they keep the rules. -/
theorem valid_of_chosen {path : Option String} (chosen : (chooseSettings e path).2 = .ok s) : s.fault? = none := by
  unfold chooseSettings at chosen
  split at chosen
  next =>
    split at chosen
    next loaded =>
      obtain rfl := Except.ok.inj chosen
      exact Settings.valid_of_load loaded
    next => cases chosen
  next =>
    split at chosen
    next => exact Settings.valid_of_environment chosen
    next =>
      split at chosen
      next loaded =>
        obtain rfl := Except.ok.inj chosen
        exact Settings.valid_of_load loaded
      next => exact Settings.valid_of_environment chosen

theorem checkSettings_of_chosen (chosen : (chooseSettings e (path? e o)).2 = .ok s) :
    checkSettings e o = ⟨(chooseSettings e (path? e o)).1, printed (settingsReport s)⟩ := by
  simp only [checkSettings, chosen]

/-- A start ends at the origins, or at the address, or with a server that is ready. -/
theorem start_cases (unforced : o.listen = none) (chosen : (chooseSettings e (path? e o)).2 = .ok s) :
    (start e o).notes = (chooseSettings e (path? e o)).1 ∧
    ("*" ∈ s.server.corsOrigins ∧ (start e o).final = .broken .wildcardOrigin ∨
      "*" ∉ s.server.corsOrigins ∧ SocketAddress.ofString? s.server.listenAddress = none ∧
        (start e o).final = .badAddress ∨
      "*" ∉ s.server.corsOrigins ∧ ∃ address cors, SocketAddress.ofString? s.server.listenAddress = some address ∧
        (start e o).final = .serving address ⟨Store.empty, s.streaming.options, cors⟩) := by
  refine ⟨rfl, ?_⟩
  by_cases listed : "*" ∈ s.server.corsOrigins
  · have hserver := Http.ofSettings_of_wildcard listed
    exact Or.inl ⟨listed, by simp only [start, chosen, hserver]⟩
  · obtain ⟨cors, hserver⟩ := Http.Server.ofSettings_eq listed
    cases haddress : SocketAddress.ofString? s.server.listenAddress with
    | none =>
      refine Or.inr (Or.inl ⟨listed, rfl, ?_⟩)
      simp only [start, chosen, hserver, unforced, Option.getD_none, haddress]
    | some address =>
      refine Or.inr (Or.inr ⟨listed, address, cors, rfl, ?_⟩)
      simp only [start, chosen, hserver, unforced, Option.getD_none, haddress]

/-- Settings that were found valid start a server, unless they list the sign for all origins or the address to listen
on cannot be read. -/
theorem valid_settings_start_unless {e : Environment} {o : OptionValues} {s : Settings} (unforced : o.listen = none)
    (chosen : (chooseSettings e (path? e o)).2 = .ok s) :
    s.fault? = none ∧ (checkSettings e o).final = printed (settingsReport s) ∧
    (start e o).notes = (checkSettings e o).notes ∧
    ((start e o).final = .broken .wildcardOrigin ↔ "*" ∈ s.server.corsOrigins) ∧
    ((start e o).final = .badAddress ↔
      "*" ∉ s.server.corsOrigins ∧ SocketAddress.ofString? s.server.listenAddress = none) ∧
    (∀ address, (∃ cors, (start e o).final = .serving address ⟨Store.empty, s.streaming.options, cors⟩) ↔
      "*" ∉ s.server.corsOrigins ∧ SocketAddress.ofString? s.server.listenAddress = some address) ∧
    (∀ a b c d service, a < 256 → b < 256 → c < 256 → d < 256 → service < 65536 →
      s.server.listenAddress = SocketAddress.dotted a b c d service →
      SocketAddress.ofString? s.server.listenAddress = some ⟨.v4 [a, b, c, d], service⟩) ∧
    (∀ c rest, s.server.listenAddress.toList = c :: rest → c ≠ '[' → c.isDigit = false →
      SocketAddress.ofString? s.server.listenAddress = none) := by
  have hcheck := checkSettings_of_chosen chosen
  obtain ⟨hnotes, hfinal⟩ := start_cases unforced chosen
  refine ⟨valid_of_chosen chosen, by rw [hcheck], by rw [hcheck, hnotes], ?_, ?_, ?_, ?_, ?_⟩
  · rcases hfinal with ⟨listed, h⟩ | ⟨free, -, h⟩ | ⟨free, address, cors, -, h⟩ <;> simp_all
  · rcases hfinal with ⟨listed, h⟩ | ⟨free, unread, h⟩ | ⟨free, address, cors, read, h⟩ <;> simp_all
  · intro address
    rcases hfinal with ⟨listed, h⟩ | ⟨free, unread, h⟩ | ⟨free, address, cors, read, h⟩ <;> simp_all
  · intro a b c d service ha hb hc hd hservice haddress
    rw [haddress]
    exact SocketAddress.ofString?_dotted ha hb hc hd hservice
  · intro c rest chars bracket name
    exact SocketAddress.ofString?_of_name chars bracket name

/-- No variable is set, and the standard file has this text. -/
def standardFile (text : String) : Environment :=
  ⟨fun _ => none, fun path => if path = standardPath then some text.toUTF8.toList else none⟩

theorem chosen_of_server {path : Option String} {server : ServerSettings}
    (h : (chooseSettings e path).2.toOption.map (·.server) = some server) :
    ∃ s, (chooseSettings e path).2 = .ok s ∧ s.server = server := by
  obtain ⟨s, hs, rfl⟩ := Option.map_eq_some_iff.mp h
  cases hchosen : (chooseSettings e path).2 with
  | error f => simp [hchosen, Except.toOption] at hs
  | ok t =>
    obtain rfl : t = s := by simpa [hchosen, Except.toOption] using hs
    exact ⟨t, rfl, rfl⟩

def localFile : Environment := standardFile "[server]\nlisten_addr = \"127.0.0.1:9999\"\n"

theorem local_settings_start :
    ∃ s, (chooseSettings localFile none).2 = .ok s ∧ ∃ cors, (start localFile .none).final =
      .serving ⟨.v4 [127, 0, 0, 1], 9999⟩ ⟨Store.empty, s.streaming.options, cors⟩ := by
  have hserver : (chooseSettings localFile none).2.toOption.map (·.server) =
      some ⟨"127.0.0.1:9999", "info", []⟩ := by decide +kernel
  obtain ⟨s, chosen, hs⟩ := chosen_of_server hserver
  obtain ⟨-, -, -, -, -, hserving, haddress, -⟩ := valid_settings_start_unless (o := .none) rfl chosen
  have hdotted : s.server.listenAddress = SocketAddress.dotted 127 0 0 1 9999 := by
    rw [hs]
    decide +kernel
  have hread := haddress 127 0 0 1 9999 (by decide) (by decide) (by decide) (by decide) (by decide) hdotted
  exact ⟨s, chosen, (hserving _).mpr ⟨by simp [hs], hread⟩⟩

/-- The sign for all origins is listed. -/
def starredFile : Environment :=
  standardFile "[server]\nlisten_addr = \"192.0.2.1:8086\"\ncors_allowed_origins = [\"*\"]\n"

/-- The host has a name. -/
def namedFile : Environment := standardFile "[server]\nlisten_addr = \"localhost:8086\"\n"

/-- These settings are found valid, and no server starts with them. -/
theorem valid_settings_that_do_not_start :
    (∃ s, (checkSettings starredFile .none).final = printed (settingsReport s) ∧
      (start starredFile .none).final = .broken .wildcardOrigin) ∧
    ∃ s, (checkSettings namedFile .none).final = printed (settingsReport s) ∧
      (start namedFile .none).final = .badAddress := by
  have hstarred : (chooseSettings starredFile none).2.toOption.map (·.server) =
      some ⟨"192.0.2.1:8086", "info", ["*"]⟩ := by decide +kernel
  have hnamed : (chooseSettings namedFile none).2.toOption.map (·.server) =
      some ⟨"localhost:8086", "info", []⟩ := by decide +kernel
  obtain ⟨starred, chosen, hserver⟩ := chosen_of_server hstarred
  obtain ⟨named, chosen', hserver'⟩ := chosen_of_server hnamed
  refine ⟨⟨starred, by rw [checkSettings_of_chosen (o := .none) chosen], ?_⟩,
    named, by rw [checkSettings_of_chosen (o := .none) chosen'], ?_⟩
  · obtain ⟨-, ⟨-, h⟩ | ⟨free, -⟩ | ⟨free, -⟩⟩ := start_cases (o := .none) rfl chosen
    · exact h
    · exact absurd (by simp [hserver]) free
    · exact absurd (by simp [hserver]) free
  · have hname : SocketAddress.ofString? named.server.listenAddress = none := by
      rw [hserver']
      decide +kernel
    obtain ⟨-, ⟨listed, -⟩ | ⟨-, -, h⟩ | ⟨-, address, cors, hread, -⟩⟩ := start_cases (o := .none) rfl chosen'
    · simp [hserver'] at listed
    · exact h
    · simp [hname] at hread

end Run

end SeriesStream
