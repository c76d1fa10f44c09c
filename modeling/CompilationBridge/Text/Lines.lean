import CompilationBridge.Text.Bytes

/-!
Lines of a byte stream. Chunks are collected until a newline arrives; a line is handed on without
the carriage returns and newlines at its end, and an empty line is not handed on. Where the chunks
were cut makes no difference.
-/

namespace CompilationBridge.Text

/-- A line that is being collected: the bytes since the last newline. -/
structure LineBuffer where
  held : Bytes := []
deriving Repr, DecidableEq

namespace LineBuffer

def isLineEnd (b : UInt8) : Bool :=
  b = 0x0A || b = 0x0D

/-- The line a collected piece stands for, if it is not empty. -/
def line? (piece : Bytes) : Option Bytes :=
  let text := (piece.reverse.dropWhile isLineEnd).reverse
  if text = [] then none else some text

/-- Cuts bytes at newlines: the finished pieces and the bytes after the last newline. `done` holds the
bytes since the newline before, last first. -/
def cut (done : Bytes) : Bytes → List Bytes × Bytes
  | [] => ([], done.reverse)
  | b :: rest =>
    if b = 0x0A then
      let (pieces, left) := cut [] rest
      (done.reverse :: pieces, left)
    else cut (b :: done) rest

/-- Takes a chunk and gives the lines it finishes. -/
def write (w : LineBuffer) (chunk : Bytes) : LineBuffer × List Bytes :=
  let (pieces, left) := cut w.held.reverse chunk
  (⟨left⟩, pieces.filterMap line?)

/-- What is told of a chunk: how many of its bytes were taken, and the lines they finished. -/
structure Receipt where
  taken : Nat
  lines : List Bytes
deriving Repr, DecidableEq

/-- Takes a whole chunk. -/
def accept (w : LineBuffer) (chunk : Bytes) : LineBuffer × Receipt :=
  let (w, lines) := w.write chunk
  (w, ⟨chunk.length, lines⟩)

/-- Hands on what has been collected although no newline followed it. -/
def flush (w : LineBuffer) : LineBuffer × List Bytes :=
  (⟨[]⟩, [w.held].filterMap line?)

end LineBuffer

end CompilationBridge.Text
