/-!
# Errors

What a caller can be told: a configuration that cannot be used, an output that could not be
written, or an image that could not be encoded. The wording of an error is a function of its cause.
-/

namespace QrRender

/-- Why writing failed: the place could not be opened, or a sink refused. -/
inductive IoCause where
  | unavailable (text : String)
  | refused (text : String)
  deriving DecidableEq

/-- The reasons why an output cannot be configured or produced. -/
inductive Error where
  /-- An image file could not be read. -/
  | imageRead (path cause : String)
  /-- A text is no colour. -/
  | invalidColor (text : String)
  /-- Modules of no width. -/
  | invalidBlockWidth
  /-- The output could not be written. -/
  | io (cause : IoCause)
  /-- An image could not be encoded. -/
  | encode (cause : String)
  deriving DecidableEq

/-- The text of the cause. -/
def IoCause.text : IoCause → String
  | unavailable t => t
  | refused t => t

namespace Error

/-- The wording of an error. -/
def message : Error → String
  | imageRead path cause => "Failed to read image at " ++ path ++ ": " ++ cause
  | invalidColor text => "Invalid color: " ++ text
  | invalidBlockWidth => "Block width must be positive"
  | io cause => "Failed to write output: " ++ cause.text
  | encode cause => "Failed to encode image: " ++ cause

/-- The error lies in the configuration, so that no output was begun. -/
def isConfig : Error → Bool
  | imageRead _ _ => true
  | invalidColor _ => true
  | invalidBlockWidth => true
  | io _ => false
  | encode _ => false

end Error

end QrRender
