import Newsbaoter.Cache.Refresh
import Newsbaoter.Support.Stylesheet
import Newsbaoter.Xsl.XPath

/-!
# The stylesheets

The five stylesheets of `xsl/`, each as its templates, and `xmlproc_transform`,
which picks one by the root element of the document.  Attributes of the result
are left out: nothing reads them.
-/

namespace Newsbaoter
namespace Xsl

open Newsbaoter.Cache (XmlNode)
open Newsbaoter.Support.Stylesheet

/-! ## Names -/

/-- The namespaces the stylesheets know, and any other by its URI. -/
inductive Namespace
  | none
  /-- `http://www.w3.org/2005/Atom` -/
  | atom10
  /-- `http://purl.org/atom/ns#` -/
  | atom03
  /-- `http://purl.org/rss/1.0/` -/
  | rss10
  /-- `http://www.w3.org/1999/02/22-rdf-syntax-ns#` -/
  | rdf
  /-- `http://purl.org/dc/elements/1.1/` -/
  | dc
  /-- `http://purl.org/rss/1.0/modules/content/` -/
  | content
  /-- `http://www.w3.org/XML/1998/namespace` -/
  | xml
  | other (uri : CStr)
deriving DecidableEq

structure QName where
  ns : Namespace
  name : CStr
deriving DecidableEq

abbrev Node := Markup QName UInt8

/-- A name without a namespace. -/
def plain (s : String) : QName := ⟨.none, ascii s⟩

def atom10 (s : String) : QName := ⟨.atom10, ascii s⟩

def atom03 (s : String) : QName := ⟨.atom03, ascii s⟩

def rss10 (s : String) : QName := ⟨.rss10, ascii s⟩

def rdf (s : String) : QName := ⟨.rdf, ascii s⟩

def dc (s : String) : QName := ⟨.dc, ascii s⟩

/-- The root element of a well-formed document. -/
structure Document where
  name : QName
  attrs : List (QName × CStr)
  children : List Node

def Document.root (d : Document) : Node :=
  .element d.name d.attrs d.children

/-! ## Parts of templates -/

/-- A template and the elements it matches: by these names and, where `below` is
given, below such a parent. -/
structure Rule where
  names : List QName
  below : Option QName := none
  body : Template QName UInt8

def Rule.matchesElement (rule : Rule) (parent : Option QName) (name : QName) : Bool :=
  rule.names.contains name && (rule.below.isNone || rule.below == parent)

/-- No element is matched by two templates of a sheet. -/
def rulesOf (sheet : List Rule) : Rules QName UInt8 := fun parent name =>
  (sheet.find? fun rule => rule.matchesElement parent name).map Rule.body

/-- The string value of the first child with such a name. -/
def childValue (names : List QName) (t : Node) : CStr :=
  ((first names.contains t.children).map Markup.value).getD []

/-- The value of an attribute, which has no namespace. -/
def attrValue (name : String) (t : Node) : CStr :=
  ((t.attrs.find? fun attr => attr.1 == plain name).map Prod.snd).getD []

/-- `<out><xsl:value-of select="."/></out>` -/
def wrap (out : String) : Template QName UInt8 :=
  leaf [(plain out, fun t => [t.value])]

/-! ## RSS -/

/-- The month of an abbreviated name; any other has no number. -/
def monthNumber (mo : CStr) : CStr :=
  if mo = ascii "jan" ∨ mo = ascii "Jan" then ascii "01"
  else if mo = ascii "feb" ∨ mo = ascii "Feb" then ascii "02"
  else if mo = ascii "mar" ∨ mo = ascii "Mar" then ascii "03"
  else if mo = ascii "apr" ∨ mo = ascii "Apr" then ascii "04"
  else if mo = ascii "may" ∨ mo = ascii "May" then ascii "05"
  else if mo = ascii "jun" ∨ mo = ascii "Jun" then ascii "06"
  else if mo = ascii "jul" ∨ mo = ascii "Jul" then ascii "07"
  else if mo = ascii "aug" ∨ mo = ascii "Aug" then ascii "08"
  else if mo = ascii "sep" ∨ mo = ascii "Sep" then ascii "09"
  else if mo = ascii "oct" ∨ mo = ascii "Oct" then ascii "10"
  else if mo = ascii "nov" ∨ mo = ascii "Nov" then ascii "11"
  else if mo = ascii "dec" ∨ mo = ascii "Dec" then ascii "12"
  else []

/-- The texts that the template of `pubDate | dc:date` writes. -/
def rssDate (dateTime : CStr) : List CStr :=
  let dayTemp := substringAfter dateTime (ascii ", ")
  let day := substringBefore dayTemp (ascii " ")
  let moTemp := substringAfter dayTemp (ascii " ")
  let mo := substringBefore moTemp (ascii " ")
  let yearTemp := substringAfter moTemp (ascii " ")
  let year := substringBefore yearTemp (ascii " ")
  let timeTemp := substringAfter yearTemp (ascii " ")
  let time := substringBefore timeTemp (ascii " ")
  let tz := substringAfter timeTemp (ascii " ")
  [year, ascii "-", monthNumber mo, ascii "-",
    if stringLength day < 2 then ascii "0" else [], day, ascii " ", time, ascii " ",
    if stringLength tz < 5 then ascii "+0000" else [], tz]

/-- The children of `feed`. -/
def rssChannel (children : List (Node × List Node)) : List Node :=
  applyTemplates [plain "title"].contains children ++
  applyTemplates [plain "link"].contains children ++
  applyTemplates [plain "description"].contains children ++
  applyTemplates [plain "language", dc "language"].contains children ++
  applyTemplates [plain "copyright", dc "rights"].contains children ++
  [literal (plain "categories") (applyTemplates [plain "category"].contains children)] ++
  applyTemplates [plain "managingEditor"].contains children ++
  applyTemplates [plain "image"].contains children ++
  applyTemplates [plain "item"].contains children

/-- The templates that both RSS sheets have. -/
def rssCommon : List Rule :=
  [{ names := [plain "pubDate", dc "date"]
     body := leaf [(plain "publishDateTime", fun t => rssDate t.value)] },
   { names := [plain "title"], body := wrap "title" },
   { names := [plain "description"], body := wrap "description" },
   { names := [plain "language", dc "language"], body := wrap "language" },
   { names := [plain "copyright", dc "rights"], body := wrap "copyright" },
   { names := [plain "category"], body := wrap "category" },
   { names := [plain "image"]
     body := leaf [(plain "imageUrl", fun t => [childValue [plain "url"] t]),
       (plain "imageText", fun t => [childValue [plain "title"] t])] },
   { names := [plain "author", plain "managingEditor", dc "creator"], body := wrap "authorEmail" },
   { names := [plain "enclosure"]
     body := fun t _ => [literal (plain "enclosure")
       (leaf [(plain "url", fun _ => [attrValue "url" t]),
         (plain "size", fun _ => [attrValue "length" t]),
         (plain "type", fun _ => [attrValue "type" t])] t [])] },
   { names := [plain "channel"]
     below := some (plain "rss")
     body := fun _ children => [literal (plain "feed") (rssChannel children)] }]

/-- `content:encoded` if there is one, else `description`. -/
def itemContent (t : Node) : CStr :=
  match first [QName.mk .content (ascii "encoded")].contains t.children with
  | some encoded => encoded.value
  | none => childValue [plain "description"] t

/-- What the children of `entry` end with. -/
def itemRest (t : Node) (children : List (Node × List Node)) : List Node :=
  [literal (plain "enclosures") (applyTemplates [plain "enclosure"].contains children)] ++
  applyTemplates [plain "author", dc "creator"].contains children ++
  [literal (plain "categories") (applyTemplates [plain "category"].contains children)] ++
  [literal (plain "description") []] ++
  [literal (plain "content") (valueOf (itemContent t))]

def rss20Item (t : Node) (children : List (Node × List Node)) : List Node :=
  applyTemplates [plain "guid"].contains children ++
  applyTemplates [plain "pubDate", dc "date"].contains children ++
  applyTemplates [plain "title"].contains children ++
  applyTemplates [plain "link"].contains children ++
  itemRest t children

/-- `RSS_20_xsl.xml` -/
def rss20Sheet : List Rule :=
  rssCommon ++
  [{ names := [plain "link"], body := wrap "url" },
   { names := [plain "guid"], body := wrap "entryUniqueId" },
   { names := [plain "item"]
     body := fun t children => [literal (plain "entry") (rss20Item t children)] }]

def rss09Item (t : Node) (children : List (Node × List Node)) : List Node :=
  [literal (plain "entryUniqueId") (applyTemplates [plain "link"].contains children)] ++
  applyTemplates [plain "pubDate", dc "date"].contains children ++
  applyTemplates [plain "title"].contains children ++
  [literal (plain "url") (applyTemplates [plain "link"].contains children)] ++
  itemRest t children

/-- `RSS_09_xsl.xml` -/
def rss09Sheet : List Rule :=
  rssCommon ++
  [{ names := [plain "link"], body := fun t _ => valueOf t.value },
   { names := [plain "item"]
     body := fun t children => [literal (plain "entry") (rss09Item t children)] }]

/-! ## Atom -/

/-- The texts of a date, of which the time is `substring($time-temp,0,n)`. -/
def atomDate (n : ℕ) (dateTime : CStr) : List CStr :=
  let day := substringBefore dateTime (ascii "T")
  let timeTemp := substringAfter dateTime (ascii "T")
  let time := substringFromZero timeTemp n
  [day, ascii " ", time, ascii " +0000"]

/-- The children of `feed`. -/
def atomFeed (atom : String → QName) (children : List (Node × List Node)) : List Node :=
  applyTemplates [atom "title"].contains children ++
  applyTemplates [atom "link"].contains children ++
  applyTemplates [atom "tagline"].contains children ++
  applyTemplates [QName.mk .xml (ascii "lang")].contains children ++
  applyTemplates [atom "copyright"].contains children ++
  applyTemplates [atom "author"].contains children ++
  [literal (plain "categories") (applyTemplates [atom "category"].contains children)] ++
  applyTemplates [atom "entry"].contains children

/-- The templates that both Atom sheets have, up to their namespace. -/
def atomCommon (atom : String → QName) : List Rule :=
  [{ names := [atom "feed"]
     body := fun _ children => [literal (plain "feed") (atomFeed atom children)] },
   { names := [atom "title"], body := wrap "title" },
   { names := [atom "link"], body := leaf [(plain "url", fun t => [attrValue "href" t])] },
   { names := [atom "tagline"], body := wrap "description" },
   { names := [QName.mk .xml (ascii "lang")], body := wrap "language" },
   { names := [atom "copyright"], body := wrap "copyright" },
   { names := [atom "author"]
     body := leaf [(plain "authorName", fun t => [childValue [atom "name"] t]),
       (plain "authorEmail", fun t => [childValue [atom "email"] t])] },
   { names := [atom "id"], body := wrap "entryUniqueId" },
   { names := [atom "content"], body := fun t _ => [copy t] },
   { names := [atom "summary"], body := wrap "description" }]

/-- What the children of `entry` end with. -/
def entryRest (atom : String → QName) (children : List (Node × List Node)) : List Node :=
  [literal (plain "categories") (applyTemplates [atom "category"].contains children)] ++
  applyTemplates [atom "summary"].contains children ++
  applyTemplates [atom "content"].contains children

def atom10Entry (children : List (Node × List Node)) : List Node :=
  applyTemplates [atom10 "id"].contains children ++
  applyTemplates [atom10 "issued", atom10 "published"].contains children ++
  applyTemplates [atom10 "modified", atom10 "updated"].contains children ++
  applyTemplates [atom10 "title"].contains children ++
  applyTemplates [atom10 "link"].contains children ++
  applyTemplates [atom10 "author"].contains children ++
  entryRest atom10 children

/-- `Atom_10_xsl.xml` -/
def atom10Sheet : List Rule :=
  atomCommon atom10 ++
  [{ names := [atom10 "issued", atom10 "published"]
     body := leaf [(plain "publishDateTime", fun t => atomDate 8 t.value)] },
   { names := [atom10 "modified", atom10 "updated"]
     body := leaf [(plain "lastUpdatedDateTime", fun t => atomDate 9 t.value)] },
   { names := [atom10 "category"]
     body := leaf [(plain "category", fun t => [attrValue "term" t])] },
   { names := [atom10 "entry"]
     body := fun _ children => [literal (plain "entry") (atom10Entry children)] }]

def atom03Entry (children : List (Node × List Node)) : List Node :=
  applyTemplates [atom03 "id"].contains children ++
  applyTemplates [atom03 "issued"].contains children ++
  applyTemplates [atom03 "title"].contains children ++
  applyTemplates [atom03 "link"].contains children ++
  applyTemplates [atom03 "author"].contains children ++
  applyTemplates [atom03 "modified"].contains children ++
  entryRest atom03 children

/-- `Atom_03_xsl.xml` -/
def atom03Sheet : List Rule :=
  atomCommon atom03 ++
  [{ names := [atom03 "issued"]
     body := leaf [(plain "publishDateTime", fun t => atomDate 9 t.value)] },
   { names := [atom03 "modified"]
     body := leaf [(plain "lastUpdatedDateTime", fun t => atomDate 9 t.value)] },
   { names := [atom03 "category"], body := wrap "category" },
   { names := [atom03 "entry"]
     body := fun _ children => [literal (plain "entry") (atom03Entry children)] }]

/-! ## RDF -/

/-- The texts of a date, which is taken for a day. -/
def rdfDate (dateTime : CStr) : List CStr :=
  [dateTime, ascii " 00:00:00 +0000"]

/-- What the template of `@rdf:about` writes, of an element that has it. -/
def aboutId (t : Node) : List Node :=
  match t.attrs.find? fun attr => attr.1 == rdf "about" with
  | some attr => [literal (plain "entryUniqueId") (valueOf attr.2)]
  | none => []

def rdfItem (t : Node) (children : List (Node × List Node)) : List Node :=
  aboutId t ++
  applyTemplates [rss10 "guid"].contains children ++
  applyTemplates [rss10 "pubDate", dc "date"].contains children ++
  applyTemplates [rss10 "title"].contains children ++
  applyTemplates [rss10 "link"].contains children ++
  applyTemplates [rss10 "author"].contains children ++
  [literal (plain "categories") (applyTemplates [rss10 "category"].contains children)] ++
  [literal (plain "content") (valueOf (childValue [rss10 "description"] t))]

def rdfChannel (children : List (Node × List Node)) : List Node :=
  applyTemplates [rss10 "title"].contains children ++
  applyTemplates [rss10 "link"].contains children ++
  applyTemplates [rss10 "description"].contains children ++
  applyTemplates [rss10 "language"].contains children ++
  applyTemplates [rss10 "copyright"].contains children ++
  applyTemplates [rss10 "category"].contains children ++
  applyTemplates [rss10 "managingEditor"].contains children ++
  applyTemplates [rss10 "image"].contains children

def rdfFeed (children : List (Node × List Node)) : List Node :=
  applyTemplates [rss10 "channel"].contains children ++
  applyTemplates [rss10 "item"].contains children

/-- `RDF_xsl.xml`.  The image is looked for without the namespace, and there is no
template for `a:copyright`, `a:managingEditor` and `a:author`. -/
def rdfSheet : List Rule :=
  [{ names := [rdf "RDF"]
     body := fun _ children => [literal (plain "feed") (rdfFeed children)] },
   { names := [rss10 "channel"], body := fun _ children => rdfChannel children },
   { names := [rss10 "image"]
     body := leaf [(plain "imageUrl", fun t => [childValue [plain "url"] t]),
       (plain "imageText", fun t => [childValue [plain "title"] t])] },
   { names := [rss10 "language"], body := wrap "language" },
   { names := [rss10 "title"], body := wrap "title" },
   { names := [rss10 "link"], body := wrap "url" },
   { names := [rss10 "description"], body := wrap "description" },
   { names := [rss10 "guid"], body := wrap "entryUniqueId" },
   { names := [rss10 "pubDate", dc "date"]
     body := leaf [(plain "publishDateTime", fun t => rdfDate t.value)] },
   { names := [rss10 "category"], body := wrap "category" },
   { names := [rss10 "item"]
     body := fun t children => [literal (plain "entry") (rdfItem t children)] }]

/-! ## Transforming a document -/

inductive Format
  | rss20
  | rss09
  | atom10
  | atom03
  | rdf
deriving DecidableEq

/-- `xmlGetProp(root,"version")`, which does not look at namespaces. -/
def Document.version (d : Document) : Option CStr :=
  (d.attrs.find? fun attr => attr.1.name == ascii "version").map Prod.snd

/-- `get_spec_sheet` -/
def getSpecSheet (d : Document) : Format :=
  if d.name.name = ascii "feed" then
    if d.version = some (ascii "0.3") then .atom03 else .atom10
  else if d.name.name = ascii "RDF" then .rdf
  else if d.name.name = ascii "rss" then
    if d.version = some (ascii "2.0") then .rss20 else .rss09
  else .rss09

def Format.rules : Format → Rules QName UInt8
  | .rss20 => rulesOf rss20Sheet
  | .rss09 => rulesOf rss09Sheet
  | .atom10 => rulesOf atom10Sheet
  | .atom03 => rulesOf atom03Sheet
  | .rdf => rulesOf rdfSheet

/-- What the template of `/` applies templates to: `rss/channel`, or the root. -/
def Format.start (format : Format) (d : Document) : List (Node × Option QName) :=
  let root := fun name => if d.name = name then [(d.root, none)] else []
  match format with
  | .rss20 | .rss09 =>
      if d.name = plain "rss" then
        (select [plain "channel"].contains d.children).map fun t => (t, some d.name)
      else []
  | .atom10 => root (Xsl.atom10 "feed")
  | .atom03 => root (Xsl.atom03 "feed")
  | .rdf => root (Xsl.rdf "RDF")

/-- The children of the result document. -/
def applyStylesheet (format : Format) (d : Document) : List Node :=
  joinTexts ((format.start d).flatMap fun t => process format.rules t.2 t.1)

mutual
/-- A node as the walk sees it: names are local, and what is no element and has no
content is nothing that any name picks. -/
def view : Node → XmlNode
  | .element name _ children => .elem name.name (views children)
  | .text s => .text s
  | .other (some s) => .text s
  | .other none => .elem [] []

def views : List Node → List XmlNode
  | [] => []
  | t :: ts => view t :: views ts
end

/-- `xmlproc_transform`: the children of the root of the result, if it has one. -/
def xmlprocTransform (d : Document) : Option (List XmlNode) :=
  (first (fun _ => true) (applyStylesheet (getSpecSheet d) d)).map fun root =>
    views root.children

end Xsl
end Newsbaoter
