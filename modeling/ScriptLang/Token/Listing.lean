import ScriptLang.Text.Listing
import ScriptLang.Token.Basic

namespace ScriptLang.Token

/-- A token in a listing: the name of its kind and its literal in quoted form. -/
def render (token : Token) : String :=
  token.kind.name ++ " " ++ Text.Listing.quote token.literal

/-- The listing of a list of tokens. -/
def listing (tokens : List Token) : String :=
  String.intercalate "\n" (tokens.map render)

end ScriptLang.Token
