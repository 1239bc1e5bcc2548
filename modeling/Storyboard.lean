import Storyboard.Main
import Storyboard.Proofs.Replay
import Storyboard.Proofs.Interleaving
import Storyboard.Proofs.CompiledLines
import Storyboard.Proofs.AllOrNothing
import Storyboard.Proofs.EffectOrder
import Storyboard.Proofs.Succession
import Storyboard.Proofs.Unbounded
import Storyboard.Proofs.ReadBack
import Storyboard.Proofs.Continuity
import Storyboard.Proofs.Noninterference
import Storyboard.Proofs.Delay
import Storyboard.Proofs.Composition
import Storyboard.Proofs.Precedence
import Storyboard.Proofs.Strictness
import Storyboard.Proofs.Sources
import Storyboard.Proofs.Batches
import Storyboard.Proofs.Erasure
import Storyboard.Proofs.Markers
import Storyboard.Proofs.Subcommands
import Storyboard.Proofs.LineFields
import Storyboard.Proofs.Number.PlainText
import Storyboard.Proofs.OptionOrder
import Storyboard.Proofs.Siblings
