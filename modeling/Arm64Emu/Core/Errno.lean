import Mathlib.Data.Int.Notation

namespace arm64emu

def EPERM : Int := 1
def ENOENT : Int := 2
def ESRCH : Int := 3
def EINTR : Int := 4
def EIO : Int := 5
def E2BIG : Int := 7
def ENOEXEC : Int := 8
def EAGAIN : Int := 11
def ENOMEM : Int := 12
def EACCES : Int := 13
def EFAULT : Int := 14
def EBUSY : Int := 16
def EEXIST : Int := 17
def ENOTDIR : Int := 20
def EISDIR : Int := 21
def EINVAL : Int := 22
def ENFILE : Int := 23
def EMFILE : Int := 24
def EFBIG : Int := 27
def ENOSPC : Int := 28
def ERANGE : Int := 34
def ENAMETOOLONG : Int := 36
def ENOSYS : Int := 38
def ELOOP : Int := 40
def ENOMSG : Int := 42
def EIDRM : Int := 43
def EOPNOTSUPP : Int := 95
def ENOBUFS : Int := 105

end arm64emu
