import GlyphTree.Unicode.Age
import GlyphTree.Unicode.Break

/-!
# Names of properties

The sets of characters that a name, or a property and a value, stand for. How a name is written
matters little: capitals count as small letters, and blanks, hyphens and underscores do not count.
-/

namespace GlyphTree.Unicode

/-- A name as it is looked up: in small ASCII letters, without blanks, hyphens and underscores, and
without a leading "is" unless nothing but a "c" follows it. -/
def plainName (written : List Char) : String :=
  let kept := fun (t : List Char) =>
    (t.filter fun c => c.toNat < 0x80 && c != ' ' && c != '_' && c != '-').map Char.toLower
  let plain := match written with
    | a :: b :: rest =>
      if a.toLower = 'i' && b.toLower = 's' then
        let name := kept rest
        if name = ['c'] then ['i', 's', 'c'] else name
      else kept written
    | _ => kept written
  String.ofList plain

/-- The row of a table that has a name among its names. -/
def namedRow? (table : List (String × CharSet)) (name : String) : Option CharSet :=
  (table.find? fun (names, _) => (names.splitOn " ").contains name).map (·.2)

/-- The general categories and their groups by name. No character is a surrogate, so that category
has no name. -/
def categoryNames : List (String × CharSet) := [
  ("letter l", CategoryGroup.letter.set),
  ("casedletter lc", categories [.lu, .ll, .lt]),
  ("uppercaseletter lu", Category.lu.set),
  ("lowercaseletter ll", Category.ll.set),
  ("titlecaseletter lt", Category.lt.set),
  ("modifierletter lm", Category.lm.set),
  ("otherletter lo", Category.lo.set),
  ("mark combiningmark m", CategoryGroup.mark.set),
  ("nonspacingmark mn", Category.mn.set),
  ("spacingmark mc", Category.mc.set),
  ("enclosingmark me", Category.me.set),
  ("number n", CategoryGroup.number.set),
  ("decimalnumber digit nd", Category.nd.set),
  ("letternumber nl", Category.nl.set),
  ("othernumber no", Category.no.set),
  ("punctuation punct p", CategoryGroup.punctuation.set),
  ("connectorpunctuation pc", Category.pc.set),
  ("dashpunctuation pd", Category.pd.set),
  ("openpunctuation ps", Category.ps.set),
  ("closepunctuation pe", Category.pe.set),
  ("initialpunctuation pi", Category.pi.set),
  ("finalpunctuation pf", Category.pf.set),
  ("otherpunctuation po", Category.po.set),
  ("symbol s", CategoryGroup.symbol.set),
  ("mathsymbol sm", Category.sm.set),
  ("currencysymbol sc", Category.sc.set),
  ("modifiersymbol sk", Category.sk.set),
  ("othersymbol so", Category.so.set),
  ("separator z", CategoryGroup.separator.set),
  ("spaceseparator zs", Category.zs.set),
  ("lineseparator zl", Category.zl.set),
  ("paragraphseparator zp", Category.zp.set),
  ("other c", CategoryGroup.other.set),
  ("control cntrl cc", Category.cc.set),
  ("format cf", Category.cf.set),
  ("privateuse co", Category.co.set),
  ("unassigned cn", Category.cn.set),
  ("any", .all),
  ("assigned", Category.cn.set.compl),
  ("ascii", .range '\x00' '\x7f')]

/-- The set that a single name stands for: a yes-or-no property, a general category or a script. -/
def propertySet? (written : List Char) : Option CharSet :=
  let name := plainName written
  namedRow? binaryProperties name <|> namedRow? categoryNames name <|> script? name

/-- The set of the characters for which a property has a value. -/
def propertyValueSet? (property value : List Char) : Option CharSet :=
  let value := plainName value
  match plainName property with
  | "generalcategory" | "gc" => namedRow? categoryNames value
  | "script" | "sc" => script? value
  | "scriptextensions" | "scx" => scriptExtensions? value
  | "age" => age? value
  | "graphemeclusterbreak" | "gcb" => namedRow? graphemeBreaks value
  | "wordbreak" | "wb" => namedRow? wordBreaks value
  | "sentencebreak" | "sb" => namedRow? sentenceBreaks value
  | _ => none

end GlyphTree.Unicode
