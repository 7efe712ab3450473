import UmlSchema.Inflection.Rules
import UmlSchema.Text.Lowercase

/-! Plural and singular of nouns. -/
namespace UmlSchema

namespace Inflection

def isUncountable (word : Text) : Bool :=
  uncountableWords.any fun w => word.lower = Text.ofString w

/-- Changes a countable word by the first rule that fits; other words stay as they are. -/
def inflectBy (rules : List Rule) (word : Text) : Text :=
  if isUncountable word then word
  else (rules.findSome? fun r => r.apply? word).getD word

end Inflection

open Inflection

def pluralize (word : Text) : Text := inflectBy (irregularPlurals ++ pluralRules) word

def singularize (word : Text) : Text := inflectBy (irregularSingulars ++ singularRules) word

end UmlSchema
