import ExprLang.Subscriber

/-!
The program: a session over the real files and streams.
-/
namespace ExprLang

def filterVariable : String := "RUST_LOG"

def readErrorOf : IO.Error → ReadError
  | .noFileOrDirectory .. => .notFound
  | .inappropriateType _ 21 _ => .isDirectory
  | .inappropriateType .. => .notDirectory
  | .invalidArgument _ 36 _ => .nameTooLong
  | .permissionDenied .. => .system "Permission denied" 13
  | .resourceExhausted _ number reason => .system reason number.toNat
  | error => .system (toString error) 5

def readContent (path : String) : IO (Except ReadError ByteArray) := do
  try return .ok (← IO.FS.readBinFile path)
  catch error => return .error (readErrorOf error)

def write (output : Output) : IO Unit := do
  IO.print output.out
  (← IO.getStdout).flush
  IO.eprint (String.join (output.err.map Notice.text))

partial def readLine (input : IO.FS.Stream) (before : Array UInt8) : IO (Array UInt8) := do
  let bytes ← input.read 1
  if bytes.isEmpty then return before
  else if bytes.toList = [0x0A] then return before.push 0x0A
  else readLine input (before ++ bytes.toList.toArray)

partial def prompt (session : Session) (input : IO.FS.Stream) : IO UInt32 := do
  write ⟨Session.promptText, []⟩
  let line ← readLine input #[]
  let (output, status?) := session.answerLine (if line.isEmpty then none else some line.toList)
  write output
  match status? with
  | some status => return status
  | none => prompt session input

end ExprLang

open ExprLang in
def main (args : List String) : IO UInt32 := do
  match Options.ofArguments args with
  | .error error =>
    IO.eprintln error.message
    return error.status
  | .ok options =>
    let filter := ((← IO.getEnv filterVariable).bind Filter.ofText?).getD Filter.standard
    let session : Session := ⟨options, filter.passes⟩
    match options.file with
    | none => prompt session (← IO.getStdin)
    | some path =>
      let transcript := session.answerFile path (← readContent path)
      write transcript.output
      return transcript.status
