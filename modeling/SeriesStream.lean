import SeriesStream.Main
import SeriesStream.Proofs.Accounting
import SeriesStream.Proofs.Calls
import SeriesStream.Proofs.Composition
import SeriesStream.Proofs.Confinement
import SeriesStream.Proofs.Containment
import SeriesStream.Proofs.Direction
import SeriesStream.Proofs.Faultless
import SeriesStream.Proofs.Folding
import SeriesStream.Proofs.Frames
import SeriesStream.Proofs.Framing
import SeriesStream.Proofs.Gaps
import SeriesStream.Proofs.Labels
import SeriesStream.Proofs.LastWrite
import SeriesStream.Proofs.Lifecycle
import SeriesStream.Proofs.Outcomes
import SeriesStream.Proofs.Pacing
import SeriesStream.Proofs.ReadAhead
import SeriesStream.Proofs.Refinement
import SeriesStream.Proofs.Requests
import SeriesStream.Proofs.RoundTrip
import SeriesStream.Proofs.Saving
import SeriesStream.Proofs.Spacing
import SeriesStream.Proofs.Splitting
import SeriesStream.Proofs.Startup
import SeriesStream.Proofs.Tiling
import SeriesStream.Proofs.Timing
import SeriesStream.Proofs.Transcript
import SeriesStream.Wire
