import RegexCorpus.Text.CodeSet

/-!
# Cased characters

Letters that have a case, and the marks that do not separate the letters of a word when its cases are
looked at.
-/

namespace RegexCorpus.Text

/-- The cased characters of Unicode 14 that are not skipped. -/
def casedChars : CodeSet := .ofRuns [
  "65.zfzUajadaewaEa195.add208.aA192.dbbccaafaacaaata83.a139.h166.aLiO2839.LaaeabQbc672.86.bf2178",
  ".igQbc64.R63.maH101.278.bfbLbfbhaaaaaaaEb53.agaaccagcdbfdmecag261.adabjaacefaaaaaadafdabdeedaq",
  "Fcb817.Z1814.124.b103.fdcblLaaea30994.TrB134.78.awcda59.ebaaaeAbca821.Qeig80.20288.gle1033.zfz",
  "1189.80.96.JdJ116.kaoagabakaoagab1731.YmY2989.64.21856.64.25984.85.a71.abbabbbdalaaaga65.adbha",
  "gaBadaeaacga340.byayaEayaEayaEayaEayah1844.jat2529.68.2028.zfzfz"]

/-- The characters of Unicode 14 that are skipped where cases are looked at. -/
def skippedChars : CodeSet := .ofRuns [
  "MafakaIaaa71.adaaadabb503.192.dbdaibaa251.g207.aeaWSaaababaaRakfjkaaIajupa101.hajadGaaaDA91.k5",
  "8.kdabaxxQcRagbfhO58.55.aaadhdacgjbmaoa58.addhatbzabb57.adbdbbccaDbcakb57.adeabdatbvfaa58.abaa",
  "dhagbkbDa61.alaXaca55.aacecadgbkbCa58.abafaebtbBb57.bddhatbCa72.agcaa90.abgki98.abiiaaf74.bAaa",
  "aaa55.naeabekaJia102.dafabbbybdcpdmabbfaoa94.a608.c946.cCbDbDb64.baghabkcaeaSeYa65.bHa118.cdbi",
  "afc219.bba58.aagaaaabhfjbaMahEWdVaaeaaeaNilbFdbbac56.aabcaac58.hbb64.f82.camagdafacbX63.maH101",
  ".445.aackcmcmcmblehbjababeWeajaamapmYG2955.b113.c125.aoa96.FUa469.aJdceea93.f93.c28438.a1250.f",
  "270.a98.dajaaBd80.bnH78.awc103.ccbhacadaybea151.bzrmaLhykTcVabdbbqaub66.fbbbblahaIakaYaacbbeba",
  "aAanbebaa100.eic121.abada20272.a147.q573.pcalpHaba169.agafakaIaaaUaSb67.auc513.a226.a149.e1029",
  ".faPai582.cabedNcda165.b573.d387.b153.kWd123.a54.oOabbjcWdbbbadajaXcJeah62.albZijdba95.cbaabfa",
  "160.achub57.bcaKgce195.hbcaawa84.faadbab238.dfbabAb85.hbaab106.aaabfaa101.cbdae259.iab256.baad",
  "a144.dbbdaFjNfbdhaifbcTmab406.gafaa82.vbgabab122.fcaabagaa72.bcaaa347.b5435.i14007.e59.gid1035",
  ".a63.q64.bab16395.dagab3230.bad4700.Tbw544.cipbgDd148.c1979.55.dXhanaveao1360.gaqbgabae261.n36",
  "8.a61.d1504.g109.h2735.e789505.aD96.128.240."]

def isCased (c : Char) : Bool := casedChars.contains c

/-- A character that is skipped where cases are looked at. -/
def isSkipped (c : Char) : Bool := skippedChars.contains c

def startsCased (cs : List Char) : Bool := (cs.find? fun c => !isSkipped c).any isCased

end RegexCorpus.Text
