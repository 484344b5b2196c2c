import ScriptBuild.Text.Rune

/-! Lower and upper case by the simple mappings of Unicode, which take one code point to one code point. -/

namespace ScriptBuild

namespace Rune

/-- Code points with another lower case: from the first to the second of a row in steps of the
third, with the fourth as the lower case of the first. -/
def lowerRows : List (Nat × Nat × Nat × Nat) :=
  [(65,90,1,97),(192,214,1,224),(216,222,1,248),(256,302,2,257),(306,310,2,307),(313,327,2,314),(330,374,2,331),
    (377,381,2,378),(386,388,2,387),(393,394,1,598),(416,420,2,417),(433,434,1,650),(435,437,2,436),(459,475,2,460),
    (478,494,2,479),(498,500,2,499),(504,542,2,505),(546,562,2,547),(582,590,2,583),(880,882,2,881),(904,906,1,941),
    (910,911,1,973),(913,929,1,945),(931,939,1,963),(984,1006,2,985),(1021,1023,1,891),(1024,1039,1,1104),
    (1040,1071,1,1072),(1120,1152,2,1121),(1162,1214,2,1163),(1217,1229,2,1218),(1232,1326,2,1233),
    (1329,1366,1,1377),(4256,4293,1,11520),(5024,5103,1,43888),(5104,5109,1,5112),(7312,7354,1,4304),
    (7357,7359,1,4349),(7680,7828,2,7681),(7840,7934,2,7841),(7944,7951,1,7936),(7960,7965,1,7952),
    (7976,7983,1,7968),(7992,7999,1,7984),(8008,8013,1,8000),(8025,8031,2,8017),(8040,8047,1,8032),
    (8072,8079,1,8064),(8088,8095,1,8080),(8104,8111,1,8096),(8120,8121,1,8112),(8122,8123,1,8048),
    (8136,8139,1,8050),(8152,8153,1,8144),(8154,8155,1,8054),(8168,8169,1,8160),(8170,8171,1,8058),
    (8184,8185,1,8056),(8186,8187,1,8060),(8544,8559,1,8560),(9398,9423,1,9424),(11264,11311,1,11312),
    (11367,11371,2,11368),(11390,11391,1,575),(11392,11490,2,11393),(11499,11501,2,11500),(42560,42604,2,42561),
    (42624,42650,2,42625),(42786,42798,2,42787),(42802,42862,2,42803),(42873,42875,2,42874),(42878,42886,2,42879),
    (42896,42898,2,42897),(42902,42920,2,42903),(42932,42946,2,42933),(42951,42953,2,42952),(42956,42970,2,42957),
    (65313,65338,1,65345),(66560,66599,1,66600),(66736,66771,1,66776),(66928,66938,1,66967),(66940,66954,1,66979),
    (66956,66962,1,66995),(66964,66965,1,67003),(68736,68786,1,68800),(68944,68965,1,68976),(71840,71871,1,71872),
    (93760,93791,1,93792),(93856,93880,1,93883),(125184,125217,1,125218)]

/-- Single code points with another lower case. -/
def lowerPairs : List (Nat × Nat) :=
  [(304,105),(376,255),(385,595),(390,596),(391,392),(395,396),(398,477),(399,601),(400,603),(401,402),(403,608),
    (404,611),(406,617),(407,616),(408,409),(412,623),(413,626),(415,629),(422,640),(423,424),(425,643),(428,429),
    (430,648),(431,432),(439,658),(440,441),(444,445),(452,454),(453,454),(455,457),(456,457),(458,460),(497,499),
    (502,405),(503,447),(544,414),(570,11365),(571,572),(573,410),(574,11366),(577,578),(579,384),(580,649),
    (581,652),(886,887),(895,1011),(902,940),(908,972),(975,983),(1012,952),(1015,1016),(1017,1010),(1018,1019),
    (1216,1231),(4295,11559),(4301,11565),(7305,7306),(7838,223),(8124,8115),(8140,8131),(8172,8165),(8188,8179),
    (8486,969),(8490,107),(8491,229),(8498,8526),(8579,8580),(11360,11361),(11362,619),(11363,7549),(11364,637),
    (11373,593),(11374,625),(11375,592),(11376,594),(11378,11379),(11381,11382),(11506,11507),(42877,7545),
    (42891,42892),(42893,613),(42922,614),(42923,604),(42924,609),(42925,620),(42926,618),(42928,670),(42929,647),
    (42930,669),(42931,43859),(42948,42900),(42949,642),(42950,7566),(42955,612),(42972,411),(42997,42998)]

def isInRow (code : Nat) (row : Nat × Nat × Nat × Nat) : Bool :=
  row.1 ≤ code && code ≤ row.2.1 && (code - row.1) % row.2.2.1 == 0

def lowerCode (code : Nat) : Nat :=
  match lowerRows.find? (isInRow code) with
  | some (first, _, _, image) => image + (code - first)
  | none => (lowerPairs.lookup code).getD code

end Rune

namespace Text

/-- A text in lower case. Text beyond ASCII is read as UTF-8, and a byte that is not becomes the
replacement code point. -/
def lower (s : Text) : Text :=
  if s.all (· < 0x80) then s.map lowerByte
  else s.runes.flatMap fun r => ofRune (Rune.lowerCode r.code)

/-- Whether a text is an ASCII name, case apart. A long s counts as an s, as the sign for kelvin
counts as a k. -/
def isName (name s : Text) : Bool :=
  let folded := s.runes.flatMap fun r => ofRune (if r.code == 0x17F then 0x73 else Rune.lowerCode r.code)
  folded == name.map lowerByte && s.isUtf8

end Text

namespace Rune

/-- Code points whose upper case does not follow from the tables of lower case. -/
def upperExceptions : List (Nat × Nat) :=
  [(181,924),(223,223),(305,73),(383,83),(453,452),(456,455),(459,458),(460,458),(498,497),(499,497),(837,921),
    (962,931),(976,914),(977,920),(981,934),(982,928),(1008,922),(1009,929),(1013,917),(7296,1042),(7297,1044),
    (7298,1054),(7299,1057),(7300,1058),(7301,1058),(7302,1066),(7303,1122),(7304,42570),(7835,7776),(8126,921)]

/-- A row of `lowerRows`, read from the lower case back. -/
def isInImage (code : Nat) (row : Nat × Nat × Nat × Nat) : Bool :=
  isInRow code (row.2.2.2, row.2.2.2 + (row.2.1 - row.1), row.2.2.1, row.1)

def upperCode (code : Nat) : Nat :=
  match upperExceptions.lookup code, lowerRows.find? (isInImage code) with
  | some upper, _ => upper
  | none, some (first, _, _, image) => first + (code - image)
  | none, none => ((lowerPairs.find? fun pair => pair.2 == code).map (·.1)).getD code

end Rune

namespace Text

/-- A text in upper case. Text beyond ASCII is read as UTF-8, and a byte that is not becomes the
replacement code point. -/
def upper (s : Text) : Text :=
  if s.all (· < 0x80) then s.map upperByte
  else s.runes.flatMap fun r => ofRune (Rune.upperCode r.code)

end Text

end ScriptBuild
