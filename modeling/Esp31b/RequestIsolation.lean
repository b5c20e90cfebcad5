import Esp31b.HeaderLines
import Esp31b.RequestEnds

/-!
# Does a request show anything of an earlier one?

What a handler can ask of the server is kept in its fields from request to
request: the method, the URI, the arguments, the collected headers and
`_hostHeader`. `_parseRequest` sets the first three and clears the collected
headers before it reads the first line. `_hostHeader` it sets when it meets a
`Host` line, and does not touch otherwise, so what a handler gets from
`hostHeader()` in a request without `Host` is that of some earlier request –
where the header file promises an empty string.

What is on the stack is left by earlier requests too, and `strstr` reads it when it
looks for the boundary behind a file. So each server has a stack of its own, and the
statement is for the bytes of which `strstr` makes the same on both.

The statement is one about two runs. `AlikeHeader` is what two servers have in
common once the first line is read; it is kept by everything that follows, and
`isolated_iff` adds what becomes of `Host`. The arguments do not depend on the server,
as those of a form are a matter of its bytes.
-/

namespace ESP31BWebServer

variable {s s' t t' : ESP31BWebServer}

/-! ## The header -/

end ESP31BWebServer
