import PortableExecutable.Read

/-!
Steps that stop with an error about the image. Reads enter them under the name of the piece that
is read, or unnamed where any failure of the file is meant.
-/

namespace PortableExecutable

abbrev ImageScan := Scan ImageError

namespace ImageScan

variable {α : Type}

/-- A read whose failure means that the piece is cut short. -/
def reading (piece : Piece) (act : Read α) : ImageScan α :=
  act.mapError (.truncated piece)

/-- A read whose failure is reported as it is. -/
def io (act : Read α) : ImageScan α :=
  act.mapError .io

/-- Moves the cursor to a piece that has to be inside the file. -/
def reach (piece : Piece) (offset : Nat) : ImageScan Unit :=
  (Read.seek offset).mapError fun _ => .unreachable piece offset

end ImageScan
end PortableExecutable
