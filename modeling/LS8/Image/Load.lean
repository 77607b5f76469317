import LS8.Image
import LS8.Text.Utf8

/-! # Images: loading

An image is loaded from a file. The file has to be there, has to be UTF-8 and has to be an image;
the first of these that fails is reported. -/

namespace LS8.Image

open LS8.Text

/-- Why a file cannot be read. -/
inductive ReadError where
  /-- The path leads nowhere. -/
  | notFound
  /-- The system gives another reason, in these words. -/
  | other (words : List Char)
deriving DecidableEq

namespace ReadError

/-- The words for a failure to read. -/
def text : ReadError → List Char
  | notFound => "file not found".toList
  | other words => words

/-- The path leads to a directory. -/
def isDirectory : ReadError := other "is a directory".toList

/-- The path goes on after a plain file. -/
def notDirectory : ReadError := other "not a directory".toList

/-- The path is too long, or a name that had to be looked up is. -/
def nameTooLong : ReadError := other "invalid filename".toList

/-- The path has a zero byte in it. -/
def zeroByte : ReadError := other "invalid input parameter".toList

/-- The path leads in a circle. -/
def circle : ReadError := other "filesystem loop or indirection limit (e.g. symlink loop)".toList

/-- The file may not be read. -/
def permissionDenied : ReadError := other "permission denied".toList

/-- The system has no name for what went wrong. -/
def uncategorized : ReadError := other "uncategorized error".toList

end ReadError

/-- What reading each path gives. -/
abbrev Files := ByteString → Except ReadError ByteString

/-- Why an image cannot be loaded. -/
inductive LoadError where
  /-- The file at `path` cannot be read. -/
  | unreadable (path : ByteString) (reason : ReadError)
  /-- The file at `path` is not UTF-8. -/
  | notText (path : ByteString)
  /-- The file is no image. -/
  | image (error : Error)
deriving DecidableEq

/-- The sentence that reports an error. -/
def LoadError.message : LoadError → List Char
  | unreadable path reason => Utf8.lossy path ++ ": ".toList ++ reason.text
  | notText path => Utf8.lossy path ++ ": invalid data".toList
  | image error => error.message

/-- The bytes of the image at `path`. -/
def load (files : Files) (path : ByteString) : Except LoadError (List UInt8) :=
  match files path with
  | .error reason => .error (.unreadable path reason)
  | .ok content =>
    match Utf8.decode? content with
    | none => .error (.notText path)
    | some text =>
      match parse text with
      | .error e => .error (.image e)
      | .ok bytes => .ok bytes

end LS8.Image
