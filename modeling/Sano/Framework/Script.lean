import Sano.Framework.Assets

namespace Sano.Framework

open FileTree

section Model

variable {σ : Type} (decode : List UInt8 → Option σ)

end Model

section Calls

end Calls

section Paths

end Paths

section Moves

end Moves

section Scripts

def script (kind : Kind) (url : String) : Bundle := ⟨kind, url, "1", "/app", [7], none⟩

end Scripts

end Sano.Framework
