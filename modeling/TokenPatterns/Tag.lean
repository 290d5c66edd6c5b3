import TokenPatterns.Level

/-! Tags and their codes.

A tagging holds its tag as a one-byte code. Each of the first three levels has a table
between tags and codes; the other levels have none, so at them no tag has a code and no code a
tag. Part-of-speech tags also fall into generic classes, such as all the noun tags. -/
namespace TokenPatterns

/-- Pairs of a tag and its code, in the order in which they were laid down: of two pairs with
one tag, or with one code, the later one counts. -/
abbrev TagTable := List (String × Int8)

namespace TagTable

def code? (table : TagTable) (tag : String) : Option Int8 :=
  (table.reverse.find? (·.1 == tag)).map (·.2)

def tag? (table : TagTable) (code : Int8) : Option String :=
  (table.reverse.find? (·.2 == code)).map (·.1)

/-- English and French part-of-speech tags. Two tags are laid down twice, so each has the code
of its second place while both codes have a tag. -/
def partsOfSpeech : TagTable :=
  [("CC", 1), ("CD", 2), ("DT", 3), ("EX", 4), ("FW", 5), ("IN", 6), ("JJ", 7), ("JJR", 8),
   ("JJS", 9), ("LS", 10), ("MD", 11), ("NN", 12), ("NNS", 13), ("NNP", 14), ("NNPS", 15),
   ("PDT", 16), ("POS", 17), ("PRP", 18), ("PP$", 19), ("PP", 19), ("RB", 20), ("RBR", 21),
   ("RBS", 22), ("RP", 23), ("SYM", 24), ("TO", 25), ("UH", 26), ("VB", 27), ("VBD", 28),
   ("VBG", 29), ("VBN", 30), ("VBP", 31), ("VBZ", 32), ("WDT", 33), ("WP", 34), ("WP$", 35),
   ("WRB", 36), ("#", 37), ("$", 38), (".", 39), (",", 40), (":", 41), ("(", 42), (")", 43),
   ("\"", 44), ("'", 45),
   ("ABR", 50), ("ADJ", 51), ("ADV", 52), ("DET:ART", 53), ("DET:POS", 54), ("INT", 55),
   ("KON", 56), ("NAM", 57), ("NOM", 58), ("NUM", 59), ("PRO", 60), ("PRO:DEM", 61),
   ("PRO:IND", 62), ("PRO:PER", 63), ("PRO:POS", 64), ("PRO:REL", 65), ("PRP", 66),
   ("PRP:det", 67), ("PUN", 68), ("SENT", 69), ("SYM", 70), ("VER:cond", 71), ("VER:futu", 72),
   ("VER:impe", 73), ("VER:impf", 74), ("VER:infi", 75), ("VER:pper", 76), ("VER:ppre", 77),
   ("VER:pres", 78), ("VER:simp", 79), ("VER:subi", 80), ("VER:subp", 81)]

/-- Tags of spans: for each kind of span its beginning, inside, end and single tag, numbered
consecutively from 2, and two tags for what lies outside every span. -/
def spans (kinds : List String) : TagTable :=
  [("O", -1), ("0", -1)] ++
    (kinds.flatMap fun kind => ["B-", "I-", "E-", "S-"].map (· ++ kind)).zipIdx.map
      fun (tag, i) => (tag, Int8.ofNat (i + 2))

def chunks : TagTable := spans ["NP", "VP", "PP", "SBAR", "ADJP", "ADVP"]

def namedEntities : TagTable := spans ["ORG", "LOC", "PER", "MISC"]

end TagTable

namespace Level

/-- The table of a level; a level without tags has the empty one. -/
def tags : Level → TagTable
  | pos => TagTable.partsOfSpeech
  | chunk => TagTable.chunks
  | ner => TagTable.namedEntities
  | _ => []

def code? (level : Level) (tag : String) : Option Int8 := level.tags.code? tag

def tag? (level : Level) (code : Int8) : Option String := level.tags.tag? code

end Level

namespace PartOfSpeech

/-- The generic classes with the codes that belong to them. -/
def genericClasses : List (String × List Int8) :=
  [("NN*", [12, 13, 14, 15, 57, 58]),
   ("JJ*", [7, 8, 9, 51]),
   ("RB*", [20, 21, 22, 52]),
   ("VB*", [27, 28, 29, 30, 31, 32, 71, 72, 73, 74, 75, 76, 77, 78, 79, 80, 81]),
   ("#*", [37, 38, 39, 40, 41, 42, 43, 44, 45, 68, 69, 70])]

/-- The generic class to which a code belongs. -/
def genericClass? (code : Int8) : Option String :=
  (genericClasses.find? (·.2.contains code)).map (·.1)

/-- A name without its last character if that is a star. -/
def unstarred (name : String) : String :=
  match name.toList.reverse with
  | '*' :: rest => String.ofList rest.reverse
  | _ => name

/-- The codes that a class name covers, ascending: all codes of a generic class, else the code of
the tag that the name spells, with or without a star at its end, else none. -/
def codes (name : String) : List Int8 :=
  match genericClasses.lookup name with
  | some codes => codes
  | none => (Level.pos.code? (unstarred name)).toList

end PartOfSpeech
end TokenPatterns
