import Sfxge.Lib.Bytes

/-!
# Efx — return codes of the common code

`efx_rc_t` is `0` or one of these error numbers; a program of the model returns or leaves with one.
-/

namespace Sfxge

inductive Errno where
  | EINVAL
  | EFAULT
  | ENOENT
  | ENOSPC
  | EFBIG
  | EAGAIN
  | ENOMEM
  | ENOTSUP
  | EBUSY
  | EEXIST
  | EIO
  | EINTR
  | EACCES
  | EDEADLK
  | EALREADY
  | ENODEV
  | ETIMEDOUT
  | EMSGSIZE
  deriving Repr, DecidableEq

end Sfxge
