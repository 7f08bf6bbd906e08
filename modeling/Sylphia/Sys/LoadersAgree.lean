import Sylphia.Sys.FileInMemory

/-!
# Whether the two loaders agree

On a well-formed file the loop of `CreateProcess` and `load_segments` come to the same segments
and do the same for them, but for the memory of the kernel, which only `load_segments` spares.
-/

namespace Sylphia

open Bytes Packed

/-- Two loaders agree when both accept or both reject, and with the same calls, the same writes
and the same entry point when they accept. -/
def Agree (a b : Option Nat × LoadState) : Prop :=
  (a.1.isSome ↔ b.1.isSome) ∧ (a.1.isSome → a.1 = b.1 ∧ a.2.log = b.2.log)

variable {store : Store} {file : FileBuffer} {buf : Buffer} {len : Nat} {s : LoadState}

namespace CppLoader

end CppLoader

namespace RustLoader

end RustLoader

section WellFormed

variable {pm : PageManager}

namespace KeptFile

end KeptFile

end WellFormed

end Sylphia
