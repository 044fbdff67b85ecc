import ScriptLang.Number.Places
import ScriptLang.Profile.Bench

/-!
Where the time of a profile goes: into the measured code, or into compiled code outside it.

The measured code is what lies in the measured directory, without the benches themselves, the tools
that measure them and the packages kept there.
-/

namespace ScriptLang.Profile

/-- The directory of the measured code, with its separator. -/
def Row.homeText : String := "/repo/"

/-- A row of the measured code. -/
def Row.isOwn (r : Row) : Bool :=
  let name := (r.file.drop Row.homeText.length).toString
  r.file.startsWith Row.homeText && name != "microbench.py" && !name.startsWith "_pti_" &&
    !name.startsWith "vendor/"

/-- A row of compiled code: a function built into the interpreter, or a shared object outside the
measured code. -/
def Row.isCompiled (r : Row) : Bool :=
  r.file == "~" || (r.file.endsWith ".so" && !r.isOwn)

namespace Bench

/-- The seconds spent in the rows that pass a test. -/
def seconds (b : Bench) (p : Row → Bool) : Float :=
  (b.rows.filter p).foldl (fun t r => t + r.seconds) 0.0

/-- The part of the whole profile that some seconds are; a profile without time has no parts. -/
def part (b : Bench) (seconds : Float) : Float :=
  if b.total == 0.0 then 0.0 else seconds / b.total

end Bench

end ScriptLang.Profile
