import DeclarativeMdp.Text.Blank
import DeclarativeMdp.Text.Utf8
import DeclarativeMdp.Text.Quoted
import DeclarativeMdp.Decimal.Layout
import DeclarativeMdp.Term.Printer
import DeclarativeMdp.Term.Reader
import DeclarativeMdp.State
import DeclarativeMdp.Error
import DeclarativeMdp.Programs
import DeclarativeMdp.Json.Decode
import DeclarativeMdp.Json.Writer
import DeclarativeMdp.Term.Json
import DeclarativeMdp.Solver.Basic
import DeclarativeMdp.BlocksWorld.Solver
import DeclarativeMdp.Trajectory.Snapshot
import DeclarativeMdp.Trajectory.Json
import DeclarativeMdp.Engine.Basic
import DeclarativeMdp.Random.Checkpoint
import DeclarativeMdp.Episode.Json
import DeclarativeMdp.Clingo.Solver
import DeclarativeMdp.Clingo.Blocks
import DeclarativeMdp.Scripting.TrajectoryObject
import DeclarativeMdp.Scripting.EngineObject
import DeclarativeMdp.Proofs.Except
import DeclarativeMdp.Proofs.Engine.Run
import DeclarativeMdp.Proofs.Trajectory.History
import DeclarativeMdp.Proofs.Engine.Consistency
import DeclarativeMdp.Proofs.Engine.Replay
import DeclarativeMdp.Proofs.Term.Characters
import DeclarativeMdp.Proofs.Term.Grammar
import DeclarativeMdp.Proofs.Term.Soundness
import DeclarativeMdp.Proofs.Term.Completeness
import DeclarativeMdp.Proofs.Term.RoundTrip
import DeclarativeMdp.Proofs.Term.Tokens
import DeclarativeMdp.Proofs.Term.Blanks
import DeclarativeMdp.Proofs.Term.Spacing
import DeclarativeMdp.Proofs.BlocksWorld.Fluents
import DeclarativeMdp.Proofs.BlocksWorld.Worlds
import DeclarativeMdp.Proofs.BlocksWorld.Moves
import DeclarativeMdp.Proofs.BlocksWorld.Answers
import DeclarativeMdp.Proofs.BlocksWorld.Search
import DeclarativeMdp.Proofs.BlocksWorld.Legality
import DeclarativeMdp.Proofs.BlocksWorld.Planning
import DeclarativeMdp.Proofs.BlocksWorld.WellFormed
import DeclarativeMdp.Proofs.BlocksWorld.Diameter
import DeclarativeMdp.Proofs.BlocksWorld.Horizon
import DeclarativeMdp.Proofs.BlocksWorld.Exhaustion
import DeclarativeMdp.Proofs.BlocksWorld.DeadEnds
import DeclarativeMdp.Proofs.BlocksWorld.Dynamics
import DeclarativeMdp.Proofs.Snapshot.Format
import DeclarativeMdp.Proofs.Snapshot.Readers
import DeclarativeMdp.Proofs.Snapshot.RoundTrip
import DeclarativeMdp.Proofs.Engine.Earnings
import DeclarativeMdp.Proofs.BlocksWorld.Rewards
import DeclarativeMdp.Proofs.Episode.Policy
import DeclarativeMdp.Proofs.Episode.Series
import DeclarativeMdp.Proofs.BlocksWorld.Failures
import DeclarativeMdp.Proofs.Clingo.Searches
import DeclarativeMdp.Proofs.Decimal.Whole
import DeclarativeMdp.Proofs.Episode.Record
import DeclarativeMdp.Proofs.BlocksWorld.Piles
import DeclarativeMdp.Proofs.BlocksWorld.Optimum
import DeclarativeMdp.Proofs.BlocksWorld.Replay
import DeclarativeMdp.Proofs.BlocksWorld.LocalCheck
import DeclarativeMdp.Proofs.BlocksWorld.AtGoal
import DeclarativeMdp.Proofs.Snapshot.Acceptance
import DeclarativeMdp.Proofs.Episode.Contract
import DeclarativeMdp.Proofs.Episode.Choices
import DeclarativeMdp.Proofs.Engine.Quoting
import DeclarativeMdp.Proofs.Json.Strings
import DeclarativeMdp.Proofs.Json.Bounds
import DeclarativeMdp.Proofs.Json.Documents
import DeclarativeMdp.Proofs.Trajectory.Loading
import DeclarativeMdp.Proofs.BlocksWorld.Reversal
import DeclarativeMdp.Proofs.Trajectory.Returns
import DeclarativeMdp.Proofs.Text.Bytes
import DeclarativeMdp.Proofs.Text.Spacing
import DeclarativeMdp.Proofs.State.Forms
import DeclarativeMdp.Proofs.State.Constructions
import DeclarativeMdp.Proofs.Request.Statements
import DeclarativeMdp.Proofs.Random.Uniformity
import DeclarativeMdp.Proofs.Term.Misreadings
import DeclarativeMdp.Proofs.BlocksWorld.Renaming
import DeclarativeMdp.Proofs.BlocksWorld.Symmetry
import DeclarativeMdp.Proofs.Episode.Events
import DeclarativeMdp.Proofs.Json.Numbers
import DeclarativeMdp.Proofs.Random.Streams
import DeclarativeMdp.Proofs.Random.Continuation
import DeclarativeMdp.Proofs.Episode.Seeds
import DeclarativeMdp.Proofs.Clingo.TimeLimit
