import MonkeyLang.Host.Memory
import MonkeyLang.Host.Console
import MonkeyLang.Session.CommandLine
import MonkeyLang.Main
import MonkeyLang.Proofs.Grammar.Basic
import MonkeyLang.Proofs.Reading.Outcomes
import MonkeyLang.Proofs.Grammar.Complete
import MonkeyLang.Proofs.Grammar.Loosen
import MonkeyLang.Proofs.Grammar.Sound
import MonkeyLang.Proofs.Grammar.Split
import MonkeyLang.Proofs.Grammar.Unique
import MonkeyLang.Proofs.Grammar.Parse
import MonkeyLang.Proofs.Reading.Natural
import MonkeyLang.Proofs.Token.Bare
import MonkeyLang.Proofs.Token.Spell
import MonkeyLang.Proofs.Tree.WellFormed
import MonkeyLang.Proofs.Grammar.Written
import MonkeyLang.Proofs.Token.Apt
import MonkeyLang.Proofs.Reading.Built
import MonkeyLang.Proofs.Grammar.RoundTrip
import MonkeyLang.Proofs.Run.Ending
import MonkeyLang.Proofs.Store.Map
import MonkeyLang.Proofs.Run.Natural
import MonkeyLang.Proofs.Run.Fuel
import MonkeyLang.Proofs.Run.Rendering
import MonkeyLang.Proofs.Run.History
import MonkeyLang.Proofs.Run.Keeping
import MonkeyLang.Proofs.Run.Region
import MonkeyLang.Proofs.Run.Plain
import MonkeyLang.Proofs.Run.Job
import MonkeyLang.Proofs.Run.Unwinding
import MonkeyLang.Proofs.Run.Execution
import MonkeyLang.Proofs.Run.Bindings
import MonkeyLang.Proofs.Run.Objects
import MonkeyLang.Proofs.Run.Hygiene
import MonkeyLang.Proofs.Store.Age
import MonkeyLang.Proofs.Store.Search
import MonkeyLang.Proofs.Store.Forest
import MonkeyLang.Proofs.Store.Keys
import MonkeyLang.Proofs.Run.Age
import MonkeyLang.Proofs.Run.Encapsulation
import MonkeyLang.Proofs.Token.Slices
import MonkeyLang.Proofs.Token.Tiling
import MonkeyLang.Proofs.Token.Gaps
import MonkeyLang.Proofs.Grammar.Joined
import MonkeyLang.Proofs.Run.Pieces
import MonkeyLang.Proofs.Run.Settled
import MonkeyLang.Proofs.Run.Hashes
import MonkeyLang.Proofs.Reading.Call
import MonkeyLang.Proofs.Reading.Trail
import MonkeyLang.Proofs.Reading.Recursion
import MonkeyLang.Proofs.Reading.Progress
import MonkeyLang.Proofs.Reading.Log
import MonkeyLang.Proofs.Reading.Places
import MonkeyLang.Proofs.Reading.Recovery
import MonkeyLang.Proofs.Run.Comparison
import MonkeyLang.Proofs.Run.Carrying
import MonkeyLang.Proofs.Run.Journal
import MonkeyLang.Proofs.Session.Division
import MonkeyLang.Proofs.Session.Fold
import MonkeyLang.Proofs.Token.Lines
import MonkeyLang.Proofs.Token.Separated
import MonkeyLang.Proofs.Grammar.Brackets
import MonkeyLang.Proofs.Reading.Climbing
import MonkeyLang.Proofs.Reading.Targets
import MonkeyLang.Proofs.Run.Arithmetic
import MonkeyLang.Proofs.Run.Texts
import MonkeyLang.Proofs.Run.Refusal
import MonkeyLang.Proofs.Token.Order
import MonkeyLang.Proofs.Tree.Layout
import MonkeyLang.Proofs.Reading.Layout
import MonkeyLang.Proofs.Host.Path
import MonkeyLang.Proofs.Host.Files
import MonkeyLang.Proofs.Reading.Spine
