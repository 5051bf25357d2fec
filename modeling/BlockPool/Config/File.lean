import BlockPool.Config.Toml
import BlockPool.Disk

/-! Settings from a file. -/

namespace BlockPool.Config

/-- The settings in a file, or why there are none: the file cannot be read, it holds no text, or
its text gives no settings that are fit for a pool. -/
def ofFile (disk : Disk) (path : String) : Except Problem Config :=
  match disk.read path with
  | .error e => .error (.unreadable path e.text)
  | .ok content =>
    match String.fromUTF8? content with
    | none => .error (.unreadable path FileError.notText.text)
    | some text => ofToml text

end BlockPool.Config
