import ScopedFilter.Stack.Answer

/-!
The console: it greets, says which fields it knows, and answers every line that is not blank in both
modes. Without a usable configuration file it goes on with the standard fields; a configuration that
declares a name twice ends it.
-/

namespace ScopedFilter.Console

def configPath : String := "field_scopes.json"

def greeting : String := "--- Event Stack Filter: 事件过滤条件到栈查询的改写 ---\n"

def loadedNote : Except ConfigError Config → String
  | .ok config =>
      "✅ 从 " ++ configPath ++ " 加载了 " ++ toString config.tenantFields.length
        ++ " 个租户字段和 " ++ toString config.stackFields.length ++ " 个栈字段\n"
  | .error error =>
      "⚠️ 无法加载JSON配置文件 (" ++ error.message ++ "), 使用内置字段表\n"

def invitation : String := "输入过滤条件，Ctrl-D 退出\n\n"

def engine : Except ConfigError Config → Except ConfigError Engine
  | .ok config => Engine.ofConfig config
  | .error _ => .ok Engine.standard

def labelled (label : String) (answer : Answer) : String :=
  "  " ++ label ++ "".pushn ' ' (9 - label.length) ++ " "
    ++ answer.executable?.getD "<不可取反>" ++ "\n"

def reply (engine : Engine) (line : String) : String :=
  let text := String.ofList (Text.trimmed line.toList)
  if text = "" then ""
  else
    match engine.run text .candidates, engine.run text .excluded with
    | .ok direct, .ok inverted => labelled "stacks" direct ++ labelled "inverted" inverted
    | .error failure, _ | _, .error failure => "  ❌ " ++ failure.message ++ "\n"

/-- The whole conversation, with the code that it ends with. It speaks in two voices, the second one
for errors, and hears line after line. -/
def converse {m : Type → Type} [Monad m] {Lines : Type} [ForIn m Lines String]
    (say complain : String → m Unit) (loaded : Except ConfigError Config) (lines : Lines) :
    m UInt8 := do
  say (greeting ++ loadedNote loaded)
  match engine loaded with
  | .error error =>
      complain ("Error: " ++ error.message ++ "\n")
      return 1
  | .ok engine =>
      say invitation
      for line in lines do
        say (reply engine line)
      return 0

structure Transcript where
  code : UInt8 := 0
  output : String := ""
  errors : String := ""

def Transcript.say (text : String) : StateM Transcript Unit :=
  modify fun heard => { heard with output := heard.output ++ text }

def Transcript.complain (text : String) : StateM Transcript Unit :=
  modify fun heard => { heard with errors := heard.errors ++ text }

def transcript (loaded : Except ConfigError Config) (input : String) : Transcript :=
  let (code, heard) :=
    (converse Transcript.say Transcript.complain loaded (input.splitOn "\n")).run {}
  { heard with code }

theorem Transcript.run_replies (engine : Engine) (lines : List String) (heard : Transcript) :
    (forIn (m := StateM Transcript) lines PUnit.unit fun line _ => do
      say (reply engine line)
      return .yield PUnit.unit).run heard =
      (PUnit.unit,
        { heard with output := heard.output ++ String.join (lines.map (reply engine)) }) := by
  induction lines generalizing heard with
  | nil =>
      exact congrArg (fun output => (PUnit.unit, { heard with output })) String.append_empty.symm
  | cons line lines ih =>
      rw [List.forIn_cons]
      refine (ih { heard with output := heard.output ++ reply engine line }).trans ?_
      simp [String.append_assoc]

theorem transcript_eq {loaded : Except ConfigError Config} {engine : Engine}
    (usable : Console.engine loaded = .ok engine) (input : String) :
    transcript loaded input = {
      output := greeting ++ loadedNote loaded ++ invitation
        ++ String.join ((input.splitOn "\n").map (reply engine)) } := by
  have replied := Transcript.run_replies engine (input.splitOn "\n")
    { output := "" ++ (greeting ++ loadedNote loaded) ++ invitation }
  rw [transcript, converse, usable]
  refine (congrArg (fun after => { after.2 with code := 0 }) replied).trans ?_
  simp

theorem transcript_eq_error {loaded : Except ConfigError Config} {error : ConfigError}
    (unusable : Console.engine loaded = .error error) (input : String) :
    transcript loaded input = {
      code := 1
      output := greeting ++ loadedNote loaded
      errors := "Error: " ++ error.message ++ "\n" } := by
  rw [transcript, converse, unusable]
  change Transcript.mk 1 ("" ++ (greeting ++ loadedNote loaded))
    ("" ++ ("Error: " ++ error.message ++ "\n")) = _
  simp

end ScopedFilter.Console
