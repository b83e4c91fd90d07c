import ACGlass.Android.Text
import ACGlass.Json

/-!
# Published lists of apps

`acglass-sync-apps` and `RootDroidspaces.scanApps` each write a JSON text for
`MainActivity.loadContainers`. What `org.json` and `json.dumps` do is a parameter.
-/

namespace ACGlass
namespace Android

/-- `org.json` and Python's `json`. `valueOf` is what `optString` makes of a value that is not
a string. -/
structure JsonLibrary where
  parse : Text → Option Json
  valueOf : Json → Text
  dumps : Json → Text
  parse_of_writes : ∀ v t, v.Writes t → parse t = some v
  writes_dumps : ∀ v : Json, v.Writes (dumps v)

def JsonLibrary.standard : JsonLibrary where
  parse := Json.parse
  valueOf := Json.dumps
  dumps := Json.dumps
  parse_of_writes := fun _ _ => Json.parse_of_writes
  writes_dumps := Json.writes_dumps

structure LinuxApp where
  name : Text
  command : Text
  deriving DecidableEq, Repr

structure LinuxContainer where
  name : Text
  running : Bool
  apps : List LinuxApp
  deriving DecidableEq, Repr

def nameKey : Text := ['n', 'a', 'm', 'e']

def commandKey : Text := ['c', 'o', 'm', 'm', 'a', 'n', 'd']

def runningKey : Text := ['r', 'u', 'n', 'n', 'i', 'n', 'g']

def appsKey : Text := ['a', 'p', 'p', 's']

section Loading

abbrev Fields := List (Text × Json)

/-- `JSONObject.opt`; of two fields with one name the last one counts. -/
def opt (fields : Fields) (name : Text) : Option Json := fields.reverse.lookup name

def optString (lib : JsonLibrary) (fields : Fields) (name fallback : Text) : Text :=
  match opt fields name with
  | none => fallback
  | some (.string s) => s
  | some v => lib.valueOf v

def optBoolean (fields : Fields) (name : Text) (fallback : Bool) : Bool :=
  match opt fields name with
  | some (.bool b) => b
  | some (.string s) =>
    if s.map Char.toLower = ['t', 'r', 'u', 'e'] then true
    else if s.map Char.toLower = ['f', 'a', 'l', 's', 'e'] then false
    else fallback
  | _ => fallback

def optJSONArray (fields : Fields) (name : Text) : Option (List Json) :=
  match opt fields name with
  | some (.array items) => some items
  | _ => none

/-- The inner loop of `loadContainers`; `none` is a `JSONException`. -/
def loadApps (lib : JsonLibrary) : List Json → Option (List LinuxApp)
  | [] => some []
  | .object item :: items => do
    let name := trim (optString lib item nameKey [])
    let command := trim (optString lib item commandKey [])
    let apps ← loadApps lib items
    if name ≠ [] ∧ command ≠ [] then return ⟨name, command⟩ :: apps else return apps
  | _ :: _ => none

/-- The outer loop; an exception ends it. -/
def loadItems (lib : JsonLibrary) : List Json → List LinuxContainer
  | [] => []
  | .object containerItem :: items =>
    let containerName := trim (optString lib containerItem nameKey [])
    if containerName = [] then loadItems lib items
    else
      match loadApps lib ((optJSONArray containerItem appsKey).getD []) with
      | none => []
      | some apps =>
        ⟨containerName, optBoolean containerItem runningKey true, apps⟩ :: loadItems lib items
  | _ :: _ => []

/-- `getAppsJson` of what is stored. -/
def getAppsJson (stored : Option Text) : Text := stored.getD ['[', ']']

def setAppsJson (appsJson : Option Text) : Option Text :=
  if present appsJson then appsJson else some ['[', ']']

def loadContainers (lib : JsonLibrary) (stored : Option Text) : List LinuxContainer :=
  match lib.parse (getAppsJson stored) with
  | some (.array items) => loadItems lib items
  | _ => []

def actionSyncApps : String := "com.acglass.app.SYNC_APPS"

def extraAppsJson : String := "com.acglass.app.APPS_JSON"

/-- `AppsReceiver.onReceive` for an intent with its string extras. -/
def onReceive (stored : Option Text) (action : String) (extras : List (String × Text)) :
    Option Text :=
  if action ≠ actionSyncApps then stored else setAppsJson (extras.lookup extraAppsJson)

end Loading

section Publishing

def replaceChar (c : Char) (by' s : Text) : Text := s.flatMap fun d => if d = c then by' else [d]

/-- `RootDroidspaces.jsonEscape` -/
def jsonEscape (value : Text) : Text :=
  replaceChar '"' ['\\', '"'] (replaceChar '\\' ['\\', '\\'] value)

/-- `escape_json` of the script, which escapes tabs also. -/
def escapeJson (value : Text) : Text :=
  replaceChar '\t' ['\\', 't']
    (replaceChar '"' ['\\', '"'] (replaceChar '\\' ['\\', '\\'] value))

/-- The loop of both writers, with its flag for the first item. -/
def jsonList {α : Type} (item : α → Text) (xs : List α) : Text :=
  (xs.foldl (fun r x => (false, (if r.1 then r.2 else r.2 ++ [',']) ++ item x)) (true, ['['])).2
    ++ [']']

/-- `"key":` -/
def keyText (key : Text) : Text := '"' :: key ++ ['"', ':']

def quoted (s : Text) : Text := '"' :: s ++ ['"']

def appItem (app : LinuxApp) : Text :=
  '{' :: keyText nameKey ++ quoted (escapeJson app.name) ++
    ',' :: keyText commandKey ++ quoted (escapeJson app.command) ++ ['}']

/-- The text that `acglass-sync-apps` puts together. -/
def syncAppsJson (apps : List LinuxApp) : Text := jsonList appItem apps

/-- The broadcast of `acglass-sync-apps`, received. -/
def syncApps (stored : Option Text) (apps : List LinuxApp) : Option Text :=
  onReceive stored "com.acglass.app.SYNC_APPS"
    [("com.acglass.app.APPS_JSON", syncAppsJson apps)]

/-- `\s` -/
def isSpace (c : Char) : Bool := c ∈ [' ', '\t', '\n', '\x0b', '\x0c', '\r']

/-- The part of a token that names a container. -/
def parseToken (token : Text) : Option Text :=
  let originalKey := token.takeWhile (· ≠ '=')
  let value := token.drop (originalKey.length + 1)
  let key := originalKey.map Char.toLower
  if originalKey = [] ∨ '=' ∉ token then none
  else if ['c', 'o', 'n', 't', '_'] <+: key ∧ 5 < originalKey.length then some (originalKey.drop 5)
  else if key = ['n', 'a', 'm', 'e'] ∨ key = ['c', 'o', 'n', 't', 'a', 'i', 'n', 'e', 'r'] ∨
      key = ['c', 'o', 'n', 't', 'a', 'i', 'n', 'e', 'r', '_', 'n', 'a', 'm', 'e'] then some value
  else none

def parseContainerLine (line : Text) : Text :=
  match (line.splitOnP fun c => isSpace c || c = ',').findSome? parseToken with
  | some name => name
  | none => if '=' ∈ line then [] else line.takeWhile (!isSpace ·)

def addContainer (containers : List Text) (line : Text) : List Text :=
  let candidate := parseContainerLine (trim line)
  if candidate ≠ [] ∧ candidate ∉ containers then containers ++ [candidate] else containers

def parseContainers (output : Text) : List Text := (output.splitOn '\n').foldl addContainer []

/-- An element of the list that the script in the container prints. -/
def appValue (app : LinuxApp) : Json :=
  .object [(nameKey, .string app.name), (commandKey, .string app.command)]

/-- `print(json.dumps(apps, ensure_ascii=False))`, trimmed. -/
def scanContainerApps (lib : JsonLibrary) (apps : List LinuxApp) : Text :=
  trim (lib.dumps (.array (apps.map appValue)) ++ ['\n'])

def trueText : Text := ['t', 'r', 'u', 'e']

def containerItem (container apps : Text) : Text :=
  '{' :: keyText nameKey ++ quoted (jsonEscape container) ++
    ',' :: keyText runningKey ++ trueText ++ ',' :: keyText appsKey ++ apps ++ ['}']

/-- The text of `RootDroidspaces.scanApps` for what `show --format` and the containers print. -/
def scanAppsJson (lib : JsonLibrary) (containersOutput : Text) (apps : Text → List LinuxApp) :
    Text :=
  jsonList (fun container => containerItem container (scanContainerApps lib (apps container)))
    (parseContainers containersOutput)

/-- `MainActivity.scanApps` -/
def scanApps (lib : JsonLibrary) (containersOutput : Text) (apps : Text → List LinuxApp) :
    Option Text :=
  setAppsJson (some (scanAppsJson lib containersOutput apps))

end Publishing

end Android
end ACGlass
