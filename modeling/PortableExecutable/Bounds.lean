/-!
Operations that are only meant inside bounds. The bounds are arguments, so that a cut outside the
bytes or a negative difference cannot be written down.
-/

namespace PortableExecutable

def slice (bytes : ByteArray) (start stop : Nat) (_ordered : start ≤ stop)
    (_inside : stop ≤ bytes.size) : ByteArray :=
  bytes.extract start stop

def deduct (a b : Nat) (_covered : b ≤ a) : Nat := a - b

end PortableExecutable
