import Bytesmith.Tool.Call
import Bytesmith.Tool.Report
import Bytesmith.Tool.Sample

namespace Bytesmith.Tool

inductive Request
  | report (request : ReportRequest)
  | call (request : CallRequest)
  | sample (request : SampleRequest)

namespace Request

def inputs : Request → List String
  | .report r => [r.file]
  | .call r => r.file :: r.config.toList
  | .sample r => r.config.toList

def run (fuel : Nat) : Request → ToolM Unit
  | .report r => Tool.report r
  | .call r => Tool.callModule r fuel
  | .sample r => Tool.sample r

end Request

structure Words where
  options : List (String × String) := []
  rest : List String := []

namespace Words

def value? (w : Words) (name : String) : Option String := w.options.lookup name

def isSet (w : Words) (name : String) : Bool := (w.value? name).isSome

end Words

/-- The options of a command by the words that name them. Some take the word after them. -/
structure CommandForm where
  flags : List String
  valued : List (String × String)
  positional : Nat

def sortWords (s : CommandForm) : Words → List String → Except String Words
  | w, [] => .ok { w with rest := w.rest.reverse }
  | w, word :: words =>
    if s.positional < w.rest.length then .ok { w with rest := w.rest.reverse ++ word :: words }
    else if s.flags.contains word then
      sortWords s { w with options := (word, "") :: w.options } words
    else match s.valued.lookup word, words with
      | some name, value :: words =>
        sortWords s { w with options := (name, value) :: w.options } words
      | some name, [] => .error s!"a value is required for '{name}'"
      | none, words => sortWords s { w with rest := word :: w.rest } words

def colorOption : String × String := ("--color", "--color")

def configOption : String × String := ("--config", "--config")

def onlyWord (rest : List String) : Except String String :=
  match rest with
  | [word] => .ok word
  | [] => .error "a module file is required"
  | _ :: word :: _ => .error s!"unexpected argument '{word}'"

def noWord (rest : List String) : Except String Unit :=
  match rest with
  | [] => .ok ()
  | word :: _ => .error s!"unexpected argument '{word}'"

def usage : String :=
  "expected a command: inspect FILE [--disasm] [--listing], " ++
    "run FILE [--entry CLASS.METHOD] [--config FILE] [ARGS], " ++
    "or demo [--out DIR] [--kind KIND] [--config FILE]"

def readArguments : List String → Except String (Request × Option String)
  | "inspect" :: words => do
    let w ← sortWords ⟨["--disasm", "--listing"], [colorOption], words.length⟩ {} words
    return (.report ⟨← onlyWord w.rest, w.isSet "--disasm", w.isSet "--listing"⟩, w.value? "--color")
  | "run" :: words => do
    let w ← sortWords ⟨[], [colorOption, configOption, ("--entry", "--entry"), ("-e", "--entry")], 1⟩
      {} words
    match w.rest with
    | [] => throw "a module file is required"
    | file :: args =>
      return (.call ⟨file, w.value? "--entry", w.value? "--config", args⟩, w.value? "--color")
  | "demo" :: words => do
    let w ← sortWords ⟨[], [colorOption, configOption, ("--out", "--out"), ("-o", "--out"),
      ("--kind", "--kind"), ("-k", "--kind")], words.length⟩ {} words
    noWord w.rest
    return (.sample ⟨w.value? "--out", w.value? "--kind", w.value? "--config"⟩, w.value? "--color")
  | "--color" :: choice :: words => do
    let (request, chosen) ← readArguments words
    return (request, chosen <|> some choice)
  | _ => .error usage

end Bytesmith.Tool
