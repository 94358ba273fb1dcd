import Lazers.LzUtil

/-!
# Raw result codes (`libs/kernel-abi`)

Each system call counts its error codes down from `usize::MAX`; the kernel's handlers
return them and `liblazer` matches on them.
-/

namespace Lazers.KernelAbi

/-- `usize::MAX`. -/
def usizeMax : Nat := u64Limit - 1

namespace SpawnWait

def invalidPath : Nat := usizeMax
def fileNotFound : Nat := usizeMax - 1
def invalidExecutable : Nat := usizeMax - 2
def resourceUnavailable : Nat := usizeMax - 3

end SpawnWait

namespace ReadDir

def invalidPath : Nat := usizeMax
def notFound : Nat := usizeMax - 1
def bufferTooSmall : Nat := usizeMax - 2
def resourceUnavailable : Nat := usizeMax - 3

end ReadDir

namespace Chdir

def invalidPath : Nat := usizeMax
def notFound : Nat := usizeMax - 1
def resourceUnavailable : Nat := usizeMax - 2

end Chdir

namespace GetCwd

def bufferTooSmall : Nat := usizeMax
def resourceUnavailable : Nat := usizeMax - 1

end GetCwd

namespace ReadFile

def invalidPath : Nat := usizeMax
def notFound : Nat := usizeMax - 1
def notAFile : Nat := usizeMax - 2
def bufferTooSmall : Nat := usizeMax - 3
def resourceUnavailable : Nat := usizeMax - 4

end ReadFile

namespace GetEnv

def invalidKey : Nat := usizeMax
def notFound : Nat := usizeMax - 1
def bufferTooSmall : Nat := usizeMax - 2
def resourceUnavailable : Nat := usizeMax - 3

end GetEnv

namespace SetEnv

def invalidKey : Nat := usizeMax
def keyTooLong : Nat := usizeMax - 1
def valueTooLong : Nat := usizeMax - 2
def capacityExceeded : Nat := usizeMax - 3
def resourceUnavailable : Nat := usizeMax - 4

end SetEnv

namespace UnsetEnv

def invalidKey : Nat := usizeMax
def notFound : Nat := usizeMax - 1
def resourceUnavailable : Nat := usizeMax - 2

end UnsetEnv

namespace ListEnv

def bufferTooSmall : Nat := usizeMax
def resourceUnavailable : Nat := usizeMax - 1

end ListEnv

end Lazers.KernelAbi
