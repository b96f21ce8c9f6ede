import Mathlib

/-!
# Options (`main/sgxlkl_run.c`)

`getopt_sgxlkl` reads one option of the command line. It goes through the table of options and takes
the first entry whose name the argument starts with, or whose letter it has.

When no entry does, the loop ends at the entry that ends the table. The test behind the loop is
whether `opt` is null, which it never is: the function returns the `val` of that entry, 0, and
counts the argument as consumed.
-/

namespace RktIo.Run

open List

/-! ## The function -/

variable {table : List LongOption} {argv : List (List Char)} {optind : Nat} {arg rest : List Char}
  {opt : LongOption} {optidx : Nat}

end RktIo.Run
