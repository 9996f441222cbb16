import Mathlib.Data.List.Infix

/-!
# `request.c`

Reading a requested file and the response for it.  What the network and the file system do is given:
`Files` is what `stat` and `read` find under a name.
-/

namespace OperatingSystem.Webserver

/-- A C string without its terminator. -/
abbrev Name := List UInt8

structure FileData where
  fileName : Name
  fileBuf : List UInt8
  fileSize : Int
  deriving DecidableEq, Repr

structure Stat where
  isRegular : Bool
  isReadable : Bool
  content : List UInt8

abbrev Files := Name → Option Stat

inductive Response
  | error (cause : Name) (errnum shortmsg longmsg : String)
  | file (filetype : String) (length : Int) (csum : UInt32) (body : List UInt8)
  deriving DecidableEq, Repr

def fileDataInit (name : Name) : FileData := ⟨name, [], 0⟩

def dot : UInt8 := 46
def slash : UInt8 := 47
def dotHtml : Name := [46, 104, 116, 109, 108]
def dotGif : Name := [46, 103, 105, 102]
def dotJpg : Name := [46, 106, 112, 103]
def dotC : Name := [46, 99]
def dotH : Name := [46, 104]

def requestGetFileType (filename : Name) : String :=
  if dotHtml <:+: filename then "text/html"
  else if dotGif <:+: filename then "image/gif"
  else if dotJpg <:+: filename then "image/jpeg"
  else "text/plain"

def extension (name : Name) : Option Name :=
  if dot ∈ name then some (dot :: (name.reverse.takeWhile (· ≠ dot)).reverse) else none

/-- The data filled in, or the error that was sent. -/
def requestReadfile (files : Files) (data : FileData) : Except Response FileData :=
  if data.fileName.head? = some slash then
    .error (.error data.fileName "404" "Not found" "OS Web Server doesn't serve files with absolute paths")
  else if [dot, dot] <:+: data.fileName then
    .error (.error data.fileName "404" "Not found" "OS Web Server doesn't serve files with .. in the path")
  else if extension data.fileName = some dotC ∨ extension data.fileName = some dotH then
    .error (.error data.fileName "404" "Not found" "OS Web Server doesn't serve C or header files ")
  else match files data.fileName with
  | none => .error (.error data.fileName "404" "Not found" "OS Web Server could not find this file")
  | some sbuf =>
      if ¬ sbuf.isRegular ∨ ¬ sbuf.isReadable then
        .error (.error data.fileName "403" "Forbidden" "OS Web Server could not read this file")
      else .ok { data with fileBuf := sbuf.content, fileSize := sbuf.content.length }

def requestSendfile (data : FileData) : Response :=
  .file (requestGetFileType data.fileName) data.fileSize
    (data.fileBuf.foldl (fun csum byte => csum + byte.toUInt32) 0) data.fileBuf

def uncachedResponse (files : Files) (name : Name) : Response :=
  match requestReadfile files (fileDataInit name) with
  | .error response => response
  | .ok data => requestSendfile data

theorem requestReadfile_eq_ok {files : Files} {data read : FileData} (ok : requestReadfile files data = .ok read) :
    read.fileName = data.fileName ∧ 0 ≤ read.fileSize := by
  unfold requestReadfile at ok
  split_ifs at ok
  split at ok
  · cases ok
  · split_ifs at ok
    rw [← Except.ok.inj ok]
    exact ⟨rfl, Int.natCast_nonneg _⟩

end OperatingSystem.Webserver
