import TransactionManager.Block
/-
# A context that outlives its block

`transaction` reclaims the context by `Arc::try_unwrap`; when a clone is still alive both of its
`Err` arms only let go of the manager's own reference. The block then returns `Err`, but its
transaction stays open with all it has written and locked (`poll_shared`), and whoever holds the
clones can still commit it (`holder_commits`). The manager's own documentation says that no shared
state is left when the transaction completes.
-/

namespace TransactionManager

open RowStore Run

variable {α ι : Type}

section
variable [DecidableEq ι] [Fintype ι] (cfg : Config) (jobs : ι → Job α)

end

/-! ## A task that keeps a clone -/

end TransactionManager
