import ScriptHost.Text.Lines

/-!
This module contains where the lines of a text are: a line that is found consists of characters that stand
in the text from the start of that line on.
-/

namespace ScriptHost.Text

end ScriptHost.Text
