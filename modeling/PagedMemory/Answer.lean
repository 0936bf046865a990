/-
PagedMemory.Answer — what the steps of a session answer, and the ways to
look at all bytes of a storage, which every kind of session offers.

One type serves the memories, the instances and the guests, so that their
steps can be mixed freely.  A fault is not an answer: it takes the place of
one.
-/
import PagedMemory.Error
import PagedMemory.Word.Width
import PagedMemory.Bytes.Summary

namespace PagedMemory

/-- The answer of a step that ran to its end. -/
inductive Answer where
  /-- The step did what it was asked and has nothing to say. -/
  | done
  /-- A word of some width. -/
  | word (w : Width) (v : Word w)
  /-- A plain number. -/
  | number (n : Int)
  /-- A yes or no. -/
  | flag (b : Bool)
  /-- A number that may be missing. -/
  | optional (n : Option Nat)
  /-- The width of an access in bytes. -/
  | width (count : Nat)
  /-- A byte string that was written over. -/
  | written (xs : List UInt8)
  /-- A window of the bytes, if it lies inside. -/
  | window (xs : Option Bytes)
  /-- All bytes as runs. -/
  | runs (rs : List Run)
  /-- The hash of all bytes. -/
  | digest (hash : UInt64)
  /-- The page count before a growth, or why it was refused. -/
  | grown (result : Except GrowError UInt32)
  /-- Whether a data segment was copied. -/
  | copied (result : Except AccessError Unit)
  /-- A diagnostic text. -/
  | text (s : String)

/-- A way to look at the bytes of a storage. -/
inductive Inspection where
  /-- The bytes of a window, if it lies inside. -/
  | read (offset length : UInt64)
  /-- All bytes as maximal runs. -/
  | runs
  /-- The hash of all bytes. -/
  | digest

/-- What looking at the bytes shows. -/
def Inspection.answer (b : Bytes) : Inspection → Answer
  | .read offset length => .window (b.window? offset length)
  | .runs => .runs b.runs
  | .digest => .digest b.digest

end PagedMemory
