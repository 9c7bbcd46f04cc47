import Telecommand.Run.Basic

/-! # Reports

    What a person reads about a run: banners, and the summary at the end. -/

namespace Telecommand.Run

/-- A line of text. -/
def line (text : Text) : Text := text ++ ['\n']

/-- The line of hash signs above and below a title. -/
def bannerRule : Text := List.replicate 29 '#'

/-- A title between two rules. -/
def banner (title : Text) : Text :=
  line bannerRule ++ line ("# " ++ title) ++ line bannerRule

/-- The summary in print. -/
def Summary.render (summary : Summary) : Text :=
  line [] ++ line ("## Errors detected in command file: "
      ++ Text.decimal summary.faultCount)
    ++ line ("## Script source file: " ++ summary.plan.input.text)
    ++ line ("## Destination file: " ++ summary.plan.output.text)
    ++ (match summary.plan.delayFile with
      | some path => line ("## Delay file: " ++ path.text)
      | none => [])
    ++ line [] ++ banner "End of Script"

end Telecommand.Run
