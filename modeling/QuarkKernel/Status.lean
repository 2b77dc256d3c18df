import Mathlib.Data.BitVec

/-! # Words, constants and error codes

The machine word of i386, the page size, where the kernel starts, and the error
codes of `types/status.h`. -/
namespace QuarkKernel

/-- `unsigned long`, `size_t`, `physaddr_t` and pointers on i386. -/
abbrev Word := BitVec 32

/-- `page_size` -/
def pageSize : Word := 4096

/-- The address of `_kernel_start`, from the linker script. -/
def kernelStart : Word := 0xFF400000

/-- `error_t` -/
inductive Status where
  | enone | enullptr | eoutofbounds | einvalidarg | enomem | enotpresent | edoesntexist
  | eexists | enosyscall | eperm | ebusy | eexited
deriving DecidableEq, Repr

/-- The value of an error code. -/
def Status.code : Status → Word
  | enone => 0
  | enullptr => 1
  | eoutofbounds => 2
  | einvalidarg => 3
  | enomem => 4
  | enotpresent => 5
  | edoesntexist => 6
  | eexists => 7
  | enosyscall => 8
  | eperm => 9
  | ebusy => 10
  | eexited => 11

end QuarkKernel
