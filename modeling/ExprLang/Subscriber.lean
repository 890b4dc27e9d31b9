import ExprLang.Session

/-!
A subscriber for the log of running sessions. It reads filters of one directive,
a level that may follow a target, and writes a record as one line, without its time
and without colours.
-/
namespace ExprLang

namespace Level

def name : Level → String
  | error => "ERROR"
  | warn => "WARN"
  | info => "INFO"
  | debug => "DEBUG"
  | trace => "TRACE"

def detail : Level → Nat
  | error => 1
  | warn => 2
  | info => 3
  | debug => 4
  | trace => 5

def ofText? : String → Option Level
  | "error" => some error
  | "warn" => some warn
  | "info" => some info
  | "debug" => some debug
  | "trace" => some trace
  | _ => none

end Level

def Value.text : Value → String
  | number n => n.repr
  | bare text => text
  | string text => quoted text

/-- The record on one line. The message is made safe for a terminal, the values
are not. -/
def Record.line (record : Record) : String :=
  record.level.name ++ " " ++ record.target ++ ": " ++ terminalText record.message ++
    String.join (record.fields.map fun (name, value) => " " ++ name ++ "=" ++ value.text)

def Notice.text : Notice → String
  | logged record => record.line ++ "\n"
  | shown text => text
  | panicked => "panicked: a field is too wide\n"

structure Filter where
  target : String
  limit : Option Level
deriving DecidableEq

namespace Filter

def standard : Filter := ⟨"kaleidoscope", some .info⟩

def passes (filter : Filter) (record : Record) : Bool :=
  filter.target.toList.isPrefixOf record.target.toList && match filter.limit with
    | none => false
    | some limit => record.level.detail ≤ limit.detail

def limitOfText? (text : String) : Option (Option Level) :=
  if text = "off" then some none else (Level.ofText? text).map some

def ofText? (text : String) : Option Filter :=
  let target := text.toList.takeWhile (· ≠ '=')
  match text.toList.drop target.length with
  | [] => (limitOfText? text).map (⟨"", ·⟩)
  | _ :: limit =>
    if target = [] then none
    else (limitOfText? (String.ofList limit)).map (⟨String.ofList target, ·⟩)

end Filter

end ExprLang
