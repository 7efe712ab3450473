import UmlSchema.Inflection.Pattern

/-! The rule tables. In each table the first rule that fits a word is the one that counts. -/
namespace UmlSchema.Inflection

open Letter

def stemmed (stems : List String) (dropped : String) : List Branch :=
  stems.map fun s => ⟨word s, word dropped, 0⟩

/-- A rule for words that end in one of the stems and a dropped ending. -/
def ending (stems : List String) (dropped insert : String) : Rule :=
  ⟨.ending, stemmed stems dropped, insert⟩

def vowels : List Char := ['a', 'e', 'i', 'o', 'u', 'y']

def pluralRules : List Rule :=
  [ending ["quiz"] "" "zes",
   ⟨.whole, [⟨word "ox", [], 0⟩], "en"⟩,
   ⟨.ending, [⟨[oneOf ['m', '|', 'l']], word "ouse", 0⟩], "ice"⟩,
   ⟨.anywhere, stemmed ["matr", "vert", "ind"] "ix", "ices"⟩,
   ending [""] "ex" "ices",
   ending ["x", "ch", "ss", "sh"] "" "es",
   ⟨.ending, [⟨[noneOf vowels], word "y", 0⟩, ⟨word "qu", word "y", 0⟩], "ies"⟩,
   ending ["hive"] "" "s",
   ⟨.ending, [⟨[noneOf ['f']], word "fe", 0⟩, ⟨[oneOf ['l', 'r']], word "f", 0⟩], "ves"⟩,
   ending ["shea", "lea", "loa", "thie"] "f" "ves",
   ending [""] "sis" "ses",
   ⟨.ending, [⟨[oneOf ['t', 'i']], word "um", 0⟩], "a"⟩,
   ending ["tomat", "potat", "ech", "her", "vet"] "o" "oes",
   ending ["bu"] "s" "ses",
   ending ["alias"] "" "es",
   ending ["octop"] "us" "i",
   ending ["ax", "test"] "is" "es",
   ending ["us"] "" "es",
   ⟨.last, [⟨[noneOf ['s']], [], 0⟩], "s"⟩]

def singularRules : List Rule :=
  [ending ["quiz"] "zes" "",
   ending ["matr"] "ices" "ix",
   ending ["vert", "ind"] "ices" "ex",
   ⟨.whole, [⟨word "ox", word "en", 0⟩], ""⟩,
   ending ["alias"] "es" "",
   ending ["octop", "vir"] "i" "us",
   ending ["cris", "ax", "test"] "es" "is",
   ending ["shoe"] "s" "",
   ending ["o"] "es" "",
   ending ["bus"] "es" "",
   ⟨.ending, [⟨[oneOf ['m', '|', 'l']], word "ice", 0⟩], "ouse"⟩,
   ending ["x", "ch", "ss", "sh"] "es" "",
   ending ["m"] "ovies" "ovie",
   ending ["s"] "eries" "eries",
   ⟨.ending, [⟨[noneOf vowels], word "ies", 0⟩, ⟨word "qu", word "ies", 0⟩], "y"⟩,
   ⟨.ending, [⟨[oneOf ['l', 'r']], word "ves", 0⟩], "f"⟩,
   ending ["tive"] "s" "",
   ending ["hive"] "s" "",
   ending ["li", "wi", "kni"] "ves" "fe",
   ending ["shea", "loa", "lea", "thie"] "ves" "f",
   ⟨.whole, [⟨word "analy", word "ses", 0⟩], "sis"⟩,
   ⟨.ending, ⟨word "analy", word "ses", 1⟩
     :: stemmed ["ba", "diagno", "parenthe", "progno", "synop", "the"] "ses", "sis"⟩,
   ⟨.ending, [⟨[oneOf ['t', 'i']], word "a", 0⟩], "um"⟩,
   ending ["n"] "ews" "ews",
   ending ["h", "bl"] "ouses" "ouse",
   ending ["corpse"] "s" "",
   ending ["us"] "es" "",
   ending [""] "s" ""]

/-- Words with a plural of their own, also at the end of a longer word. -/
def irregularWords : List (String × String) :=
  [("move", "moves"), ("foot", "feet"), ("goose", "geese"), ("sex", "sexes"),
   ("child", "children"), ("man", "men"), ("tooth", "teeth"), ("person", "people")]

def uncountableWords : List String :=
  ["sheep", "fish", "deer", "series", "species", "money", "rice", "information", "equipment"]

def irregularPlurals : List Rule :=
  irregularWords.map fun w => ending [""] w.1 w.2

def irregularSingulars : List Rule :=
  irregularWords.map fun w => ending [""] w.2 w.1

end UmlSchema.Inflection
