/-
# `lib/Connector/include/select.h`

`SelectWrapper` keeps three `fd_set`s and one upper bound for all of them.  The six methods
that edit the sets are two bodies, each written out three times in the source, once for each
set; here each is a definition with the set as a parameter, and the source's names stand for
its three values.  The same holds for the three queries.

`select` hands COPIES of the sets to `::select`, as the source does: what the kernel leaves in
them is local to the call, and only the return value comes out.
-/
import InternetProgramming.Interaction.Registry
import InternetProgramming.Socket

namespace InternetProgramming

open Interaction

/-- Which of the three sets. -/
inductive FdKind where
  | read
  | write
  | except
deriving DecidableEq

/-- `class SelectWrapper`. -/
structure SelectWrapper where
  readFds : FdSet
  writeFds : FdSet
  exceptFds : FdSet
  maxFd : ℤ
deriving DecidableEq

/-- The set that an answer of `::select` left, for each of the three it was given. -/
def SelectRet.left {readfds writefds exceptfds : FdSet} :
    SelectRet readfds writefds exceptfds → FdKind → FdSet
  | .ready r _ _ _ _ _, .read => r
  | .ready _ w _ _ _ _, .write => w
  | .ready _ _ e _ _ _, .except => e
  | .failed, .read => readfds
  | .failed, .write => writefds
  | .failed, .except => exceptfds

namespace SelectWrapper

/-! ## 1. The methods -/

/-- `SelectWrapper::SelectWrapper`. -/
def new : SelectWrapper := ⟨∅, ∅, ∅, -1⟩

/-- The set of one kind. -/
def fds (s : SelectWrapper) : FdKind → FdSet
  | .read => s.readFds
  | .write => s.writeFds
  | .except => s.exceptFds

/-- The object with the set of one kind replaced. -/
def withFds (s : SelectWrapper) (set : FdSet) : FdKind → SelectWrapper
  | .read => { s with readFds := set }
  | .write => { s with writeFds := set }
  | .except => { s with exceptFds := set }

/-- `FD_SET` on one of the sets, then the bound is raised if need be. -/
def addFd (k : FdKind) (fd : ℤ) : Method SelectWrapper Unit := do
  let s ← get
  let set ← fdSet fd (s.fds k)
  modify fun s => s.withFds set k
  modify fun s => if fd > s.maxFd then { s with maxFd := fd } else s

/-- `SelectWrapper::addReadFd`. -/
def addReadFd (fd : ℤ) : Method SelectWrapper Unit := addFd .read fd

/-- `SelectWrapper::addWriteFd`. -/
def addWriteFd (fd : ℤ) : Method SelectWrapper Unit := addFd .write fd

/-- `SelectWrapper::addExceptFd`. -/
def addExceptFd (fd : ℤ) : Method SelectWrapper Unit := addFd .except fd

/-- `FD_CLR` on one of the sets.  The bound stays. -/
def removeFd (k : FdKind) (fd : ℤ) : Method SelectWrapper Unit := do
  let s ← get
  let set ← fdClr fd (s.fds k)
  modify fun s => s.withFds set k

/-- `SelectWrapper::removeReadFd`. -/
def removeReadFd (fd : ℤ) : Method SelectWrapper Unit := removeFd .read fd

/-- `SelectWrapper::removeWriteFd`. -/
def removeWriteFd (fd : ℤ) : Method SelectWrapper Unit := removeFd .write fd

/-- `SelectWrapper::removeExceptFd`. -/
def removeExceptFd (fd : ℤ) : Method SelectWrapper Unit := removeFd .except fd

/-- `SelectWrapper::select`.  A timeout of zero is passed as no timeout. -/
def select (timeoutSec timeoutUsec : ℤ) : Method SelectWrapper ℤ := do
  let s ← get
  let timeout : Timeval := ⟨timeoutSec, timeoutUsec⟩
  let a ← sys (.select (s.maxFd + 1) s.readFds s.writeFds s.exceptFds
    (if timeoutSec = 0 ∧ timeoutUsec = 0 then none else some timeout))
  pure a.ret

/-- `FD_ISSET` on one of the sets. -/
def hasFd (k : FdKind) (fd : ℤ) : Method SelectWrapper Bool := do
  let s ← get
  fdIsset fd (s.fds k)

/-- `SelectWrapper::isReadable`. -/
def isReadable (fd : ℤ) : Method SelectWrapper Bool := hasFd .read fd

/-- `SelectWrapper::isWritable`. -/
def isWritable (fd : ℤ) : Method SelectWrapper Bool := hasFd .write fd

/-- `SelectWrapper::hasException`. -/
def hasException (fd : ℤ) : Method SelectWrapper Bool := hasFd .except fd

end SelectWrapper

/-- A call of a public method of `SelectWrapper`. -/
inductive SelectOp where
  | addReadFd (fd : ℤ)
  | addWriteFd (fd : ℤ)
  | addExceptFd (fd : ℤ)
  | removeReadFd (fd : ℤ)
  | removeWriteFd (fd : ℤ)
  | removeExceptFd (fd : ℤ)
  | select (timeoutSec timeoutUsec : ℤ)
  | isReadable (fd : ℤ)
  | isWritable (fd : ℤ)
  | hasException (fd : ℤ)
deriving DecidableEq

def SelectOp.exec : SelectOp → Method SelectWrapper Val
  | .addReadFd fd => do SelectWrapper.addReadFd fd; pure .unit
  | .addWriteFd fd => do SelectWrapper.addWriteFd fd; pure .unit
  | .addExceptFd fd => do SelectWrapper.addExceptFd fd; pure .unit
  | .removeReadFd fd => do SelectWrapper.removeReadFd fd; pure .unit
  | .removeWriteFd fd => do SelectWrapper.removeWriteFd fd; pure .unit
  | .removeExceptFd fd => do SelectWrapper.removeExceptFd fd; pure .unit
  | .select timeoutSec timeoutUsec => do
    pure (.int (← SelectWrapper.select timeoutSec timeoutUsec))
  | .isReadable fd => do pure (.bool (← SelectWrapper.isReadable fd))
  | .isWritable fd => do pure (.bool (← SelectWrapper.isWritable fd))
  | .hasException fd => do pure (.bool (← SelectWrapper.hasException fd))

/-- The set an operation edits, and how. -/
def SelectOp.edit? : SelectOp → Option (Edit FdKind ℤ)
  | .addReadFd fd => some (.add .read fd)
  | .addWriteFd fd => some (.add .write fd)
  | .addExceptFd fd => some (.add .except fd)
  | .removeReadFd fd => some (.remove .read fd)
  | .removeWriteFd fd => some (.remove .write fd)
  | .removeExceptFd fd => some (.remove .except fd)
  | .select _ _ | .isReadable _ | .isWritable _ | .hasException _ => none

/-- The descriptor an operation hands to an `FD_*` macro. -/
def SelectOp.fd? : SelectOp → Option ℤ
  | .addReadFd fd | .addWriteFd fd | .addExceptFd fd
  | .removeReadFd fd | .removeWriteFd fd | .removeExceptFd fd
  | .isReadable fd | .isWritable fd | .hasException fd => some fd
  | .select _ _ => none

end InternetProgramming
