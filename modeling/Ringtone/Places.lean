import Ringtone.Platform
import Ringtone.Session

/-!
# Places

Where the settings and the rendered files are. One variable of the environment names a directory
for all of it; without that, the settings and the data go where the conventions of the desktop put
them, each place with a variable of its own and a directory below the home directory in its stead.
Such a variable counts only when its path begins at the root, so that it does not depend on the
current directory.
-/

namespace Ringtone

open Files

/-- The name of the program. -/
def programName : String := "nokiacomposer"

/-- The version of the program. -/
def version : String := "0.1.0"

/-- The variable that names a directory for everything. -/
def directoryVariable : String := "NOKIACOMPOSER_DIR"

namespace Places

/-- The variable that names a directory for the settings of all programs. -/
def settingsVariable : String := "XDG_CONFIG_HOME"

/-- The variable that names a directory for the data of all programs. -/
def dataVariable : String := "XDG_DATA_HOME"

/-- A path below the home directory. -/
def belowHome (environment : Environment) (below : String) : Path :=
  let home := (environment.get? "HOME").getD platform.home
  .ofChars ((home.reverse.dropWhile (· = '/')).reverse ++ '/' :: below.toList)

/-- The directory for a purpose: the one that serves for everything, with a name for the purpose;
or that of the purpose's own variable, if its path begins at the root, or else the one below the
home directory, with the program's name. -/
def directoryFor (environment : Environment) (purpose name fallback : String) : Path :=
  match environment.get? directoryVariable with
  | some (c :: rest) => (Path.ofChars (c :: rest)).child purpose
  | _ =>
    let base : Path := match environment.get? name with
      | some ('/' :: rest) => .ofChars ('/' :: rest)
      | _ => belowHome environment fallback
    base.child programName

/-- The directory of the settings. -/
def settingsDirectory (environment : Environment) : Path :=
  directoryFor environment "config" settingsVariable ".config"

/-- The file of the settings. -/
def settingsFile (environment : Environment) : Path :=
  (settingsDirectory environment).child "config.json"

/-- The directory of the data. -/
def dataDirectory (environment : Environment) : Path :=
  directoryFor environment "data" dataVariable ".local/share"

/-- The directory of the rendered files. -/
def rendersDirectory (environment : Environment) : Path :=
  (dataDirectory environment).child "renders"

/-! ## The default path of a rendered file -/

/-- A number with at least two digits. -/
def twoDigits (n : Nat) : String :=
  if n < 10 then "0" ++ Number.numeral n else Number.numeral n

/-- A moment in a file name. -/
def stamp (moment : Moment) : String :=
  "-".intercalate
    [Number.numeral moment.year, twoDigits moment.month, twoDigits moment.day,
      twoDigits moment.hour, twoDigits moment.minute, twoDigits moment.second]

/-- The file names for a moment: the first has no number, the others count from one. -/
def renderName (moment : Moment) (index : Nat) : String :=
  if index = 0 then stamp moment ++ ".wav"
  else stamp moment ++ "-" ++ Number.numeral index ++ ".wav"

/-- The number of entries of the directory at a path. -/
def entryCount (session : Session) (directory : Path) : Nat :=
  match session.files.lookup session.current directory with
  | .ok (.directory entries) => entries.length
  | _ => 0

/-- The first of the paths for a moment at which nothing is, counting on from an index. Among one
more paths than the directory has entries there is always one. -/
def firstFree (directory : Path) (moment : Moment) : (attempts index : Nat) → Action Path
  | 0, index => return directory.child (renderName moment index)
  | attempts + 1, index => do
    let path := directory.child (renderName moment index)
    if ← Action.isPresent path then firstFree directory moment attempts (index + 1)
    else return path

/-- A path for a rendered file at which nothing is yet, in the directory for these. -/
def freshRender : Action Path := do
  let directory := rendersDirectory (← get).environment
  Action.ensureDirectory directory
  let session ← get
  firstFree directory session.now (entryCount session directory + 1) 0

end Places

end Ringtone
