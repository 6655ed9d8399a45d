import GclProofs.Heap
import GclProofs.Mark
import GclProofs.Dfs
import GclProofs.PointerReversal
import GclProofs.Collector
import GclProofs.Allocator
import GclProofs.Mutator
import GclProofs.Objects
import GclProofs.Reader
import GclProofs.Parse
import GclProofs.Semantics
import GclProofs.Interp
import GclProofs.Budget
import GclProofs.Frame
import GclProofs.Represent
import GclProofs.Machine
import GclProofs.Builtins
import GclProofs.Trampoline
import GclProofs.Session
import GclProofs.Main
