import GrammarKit.Text.Property

/-!
# Where text can be divided

Characters fall into classes that say where clusters, words and sentences end.

* `SegmentClass`: a class with its names.
* `clusterClasses`, `wordClasses`, `sentenceClasses`: the classes of the three divisions.
-/

namespace GrammarKit.Text

open CharSet

/-- A class of characters with its name and its short name. -/
structure SegmentClass where
  name : String
  shortName : String
  chars : CharSet
deriving Repr

/-- The characters of a written table. -/
def chars (s : String) : CharSet := table (blocks s)

/-! ## Clusters -/

/-- Marks that take up room of their own and still belong to the cluster before them. -/
def clusterSpacingMark : CharSet :=
  except (either (ofCategories [.spacingMark]) (chars "E33 EB3"))
    (either graphemeExtend (chars "102B-102C 1038 1062-1064 1067-106D 1083 1087-108C 108F 109A-109C
      1A61 1A63-1A64 AA7B AA7D 11720-11721"))

/-- Characters that no cluster goes across, line breaks apart. -/
def clusterControl : CharSet :=
  except
    (either (ofCategories [.lineSeparator, .paragraphSeparator, .control, .format])
      (except defaultIgnorable assigned))
    (either (chars "A D 200C-200D E0020-E007F") (table prependedConcatenationMark))

/-- The classes that divide text into clusters. -/
def clusterClasses : List SegmentClass := [
  ⟨"CR", "CR", chars "D"⟩,
  ⟨"Control", "CN", clusterControl⟩,
  ⟨"Extend", "EX", either graphemeExtend (chars "1F3FB-1F3FF")⟩,
  ⟨"L", "L", chars "1100-115F A960-A97C"⟩,
  ⟨"LF", "LF", chars "A"⟩,
  ⟨"LV", "LV", chars "AC00-D788/1C"⟩,
  ⟨"LVT", "LVT", except (chars "AC00-D7A3") (chars "AC00-D788/1C")⟩,
  ⟨"Prepend", "PP", either (table prependedConcatenationMark)
    (chars "D4E 111C2-111C3 113D1 1193F 11941 11A3A 11A84-11A89 11D46 11F02")⟩,
  ⟨"Regional_Indicator", "RI", chars "1F1E6-1F1FF"⟩,
  ⟨"SpacingMark", "SM", clusterSpacingMark⟩,
  ⟨"T", "T", chars "11A8-11FF D7CB-D7FB"⟩,
  ⟨"V", "V", chars "1160-11A7 D7B0-D7C6 16D63 16D67-16D6A"⟩,
  ⟨"ZWJ", "ZWJ", chars "200D"⟩]

/-! ## Words -/

/-- Characters that continue what stands before them. -/
def wordExtend : CharSet :=
  either (either graphemeExtend (ofCategories [.spacingMark])) (chars "1F3FB-1F3FF")

/-- Hebrew letters. -/
def hebrewLetter : CharSet :=
  chars "5D0-5EA 5EF-5F2 FB1D FB1F-FB28 FB2A-FB36 FB38-FB3C FB3E FB40-FB41 FB43-FB44 FB46-FB4F"

/-- Katakana and the marks used with it. -/
def katakanaWord : CharSet :=
  chars "3031-3035 309B-309C 30A0-30FA 30FC-30FF 31F0-31FF 32D0-32FE 3300-3357 FF66-FF9D
    1AFF0-1AFF3 1AFF5-1AFFB 1AFFD-1AFFE 1B000 1B120-1B122 1B155 1B164-1B167"

/-- Letters of scripts that put no blanks between words. -/
def unspacedLetter : CharSet :=
  chars "E01-E30 E32-E33 E40-E46 E81-E82 E84 E86-E8A E8C-EA3 EA5 EA7-EB0 EB2-EB3 EBD EC0-EC4 EC6
    EDC-EDF 1000-102A 103F 1050-1055 105A-105D 1061 1065-1066 106E-1070 1075-1081 108E 1780-17B3
    17D7 17DC 1950-196D 1970-1974 1980-19AB 19B0-19C9 1A20-1A54 1AA7 3041-3096 309D-309F A9E0-A9E4
    A9E6-A9EF A9FA-A9FE AA60-AA76 AA7A AA7E-AAAF AAB1 AAB5-AAB6 AAB9-AABD AAC0 AAC2 AADB-AADD
    11700-1171A 11740-11746 1B001-1B11F 1B132 1B150-1B152 1F200"

/-- Letters of scripts that put blanks between words. -/
def wordLetter : CharSet :=
  either
    (except alphabetic (either (either (table ideographic) katakanaWord)
      (either unspacedLetter (either wordExtend hebrewLetter))))
    (chars "2C2-2C5 2D2-2D7 2DE-2DF 2E5-2EB 2ED 2EF-2FF 55A-55C 55E 58A 5F3 A708-A716 A720-A721
      A789-A78A AB5B")

/-- Digits and the signs inside numbers. -/
def numericChars : CharSet := either (ofCategories [.decimalNumber]) (chars "66B-66C")

/-- The classes that divide text into words. -/
def wordClasses : List SegmentClass := [
  ⟨"ALetter", "LE", wordLetter⟩,
  ⟨"CR", "CR", chars "D"⟩,
  ⟨"Double_Quote", "DQ", chars "22"⟩,
  ⟨"Extend", "Extend", wordExtend⟩,
  ⟨"ExtendNumLet", "EX", chars "5F 202F 203F-2040 2054 FE33-FE34 FE4D-FE4F FF3F"⟩,
  ⟨"Format", "FO", except (ofCategories [.format]) (chars "200B-200D E0020-E007F")⟩,
  ⟨"Hebrew_Letter", "HL", hebrewLetter⟩,
  ⟨"Katakana", "KA", katakanaWord⟩,
  ⟨"LF", "LF", chars "A"⟩,
  ⟨"MidLetter", "ML", chars "3A B7 387 55F 5F4 2027 FE13 FE55 FF1A"⟩,
  ⟨"MidNum", "MN", chars "2C 3B 37E 589 60C-60D 66C 7F8 2044 FE10 FE14 FE50 FE54 FF0C FF1B"⟩,
  ⟨"MidNumLet", "MB", chars "2E 2018-2019 2024 FE52 FF07 FF0E"⟩,
  ⟨"Newline", "NL", chars "B-C 85 2028-2029"⟩,
  ⟨"Numeric", "NU", except numericChars (chars "66C")⟩,
  ⟨"Regional_Indicator", "RI", chars "1F1E6-1F1FF"⟩,
  ⟨"Single_Quote", "SQ", chars "27"⟩,
  ⟨"WSegSpace", "WSegSpace", chars "20 1680 2000-2006 2008-200A 205F 3000"⟩,
  ⟨"ZWJ", "ZWJ", chars "200D"⟩]

/-! ## Sentences -/

/-- Characters that continue what stands before them. -/
def sentenceExtend : CharSet :=
  either (either graphemeExtend (ofCategories [.spacingMark])) (chars "200D")

/-- Lower-case letters of scripts with two cases. -/
def sentenceLower : CharSet :=
  except (except lowercase graphemeExtend) (chars "10D0-10FA 10FD-10FF")

/-- Upper-case letters of scripts with two cases. -/
def sentenceUpper : CharSet :=
  except (either uppercase (ofCategories [.titleLetter])) (chars "1C90-1CBA 1CBD-1CBF")

/-- Full stops, which do not always end a sentence. -/
def fullStop : CharSet := chars "2E 2024 FE52 FF0E"

/-- The classes that divide text into sentences. -/
def sentenceClasses : List SegmentClass := [
  ⟨"ATerm", "AT", fullStop⟩,
  ⟨"CR", "CR", chars "D"⟩,
  ⟨"Close", "CL", except
    (either
      (ofCategories
        [.openPunctuation, .closePunctuation, .initialPunctuation, .finalPunctuation])
      (chars "22 27 275B-2760 2E00-2E01 2E06-2E08 2E0B 1F676-1F678"))
    (either fullStop (table sentenceTerminal))⟩,
  ⟨"Extend", "EX", sentenceExtend⟩,
  ⟨"Format", "FO", except (ofCategories [.format]) (chars "200C-200D E0020-E007F")⟩,
  ⟨"LF", "LF", chars "A"⟩,
  ⟨"Lower", "LO", sentenceLower⟩,
  ⟨"Numeric", "NU", numericChars⟩,
  ⟨"OLetter", "LE", except (either alphabetic (chars "5F3"))
    (either sentenceExtend (either sentenceLower sentenceUpper))⟩,
  ⟨"SContinue", "SC", chars "2C-2D 3A-3B 37E 55D 60C-60D 7F8 1802 1808 2013-2014 3001 FE10-FE11
    FE13-FE14 FE31-FE32 FE50-FE51 FE54-FE55 FE58 FE63 FF0C-FF0D FF1A-FF1B FF64"⟩,
  ⟨"STerm", "ST", except (table sentenceTerminal) fullStop⟩,
  ⟨"Sep", "SE", chars "85 2028-2029"⟩,
  ⟨"Sp", "SP", except (table whiteSpace) (chars "A D 85 2028-2029")⟩,
  ⟨"Upper", "UP", sentenceUpper⟩]

end GrammarKit.Text
