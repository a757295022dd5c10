import TimedQuiz.Journal.Threshold
import TimedQuiz.Proofs.Expr.Reading
import TimedQuiz.Proofs.Sitting.Advances
import TimedQuiz.Proofs.Sitting.AfterEnd
import TimedQuiz.Proofs.Sitting.Announcements
import TimedQuiz.Proofs.Sitting.AnyOrder
import TimedQuiz.Proofs.Sitting.Cancellation
import TimedQuiz.Proofs.Sitting.Elapsed
import TimedQuiz.Proofs.Sitting.Faults
import TimedQuiz.Proofs.Sitting.Playthrough
import TimedQuiz.Proofs.Sitting.Refusals
import TimedQuiz.Proofs.Sitting.Retry
import TimedQuiz.Proofs.Sitting.Solvable
import TimedQuiz.Proofs.Sitting.Spinning
import TimedQuiz.Proofs.Sitting.Unstuck
import TimedQuiz.Proofs.Timing.Lifecycle
import TimedQuiz.Proofs.Round.Position
import TimedQuiz.Proofs.Round.Tally
import TimedQuiz.Proofs.Expr.Counting
import TimedQuiz.Proofs.Problem.Display
import TimedQuiz.Proofs.Round.Heeding
import TimedQuiz.Proofs.Scoring.Percentage
import TimedQuiz.Proofs.Round.AnswerOrder
import TimedQuiz.Proofs.Wording.Filling
import TimedQuiz.Proofs.ClockFace
import TimedQuiz.Proofs.Expr.Splitting
import TimedQuiz.Proofs.Problem.Marker
