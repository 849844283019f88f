import Flowchart.File.Tree

namespace Flowchart.Command

class Host (m : Type → Type) where
  read : Path → m (Except FileError ByteArray)
  input : m ByteArray
  isDirectory : Path → m Bool
  /-- Write a file, new or in place of the one that was there. -/
  write : Path → String → m (Except FileError Unit)
  print : String → m Unit

structure Machine where
  files : FileTree
  input : ByteArray
  printed : String := ""

namespace Machine

/-- Write a file on a machine. A file that cannot be written changes nothing. -/
def write (w : Machine) (p : Path) (text : String) : Except FileError Unit × Machine :=
  match w.files.write p text.toUTF8 with
  | .ok files => (.ok (), { w with files })
  | .error e => (.error e, w)

end Machine

instance : Host (StateM Machine) where
  read p := fun w => (w.files.read p, w)
  input := fun w => (w.input, { w with input := .empty })
  isDirectory p := fun w => (w.files.isDirectory p, w)
  write p text := fun w => w.write p text
  print text := fun w => ((), { w with printed := w.printed ++ text })

end Flowchart.Command
