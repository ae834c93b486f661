import RegexCorpus.Text.CodeSet

/-!
# Printable characters

Everything but control and format characters, unassigned and private code points, and the
separators other than the space. A quoted text shows the others by their numbers.
-/

namespace RegexCorpus.Text

def printableChars : CodeSet := .ofRuns [
  "F95.Hla714.bfdgaaata397.aLbXbca55.hAdfqva192.aVb59.b101.n59.bWboaBbaakeEi74.a161.ahbbbvagaacdb",
  "ibbbdhadbaebybcafdbbvagabababbaaedbbccagdaagqjcaiacavagabaebjacacbaodblggacahbbbvagabaebibbbcg",
  "cdbaebrjbafccadcbaaabcbcccldeccadbafanuemacawapbiacadgbacbabdbjgvacawajaebiacadgbfbadbjabmmaca",
  "Yacafdpbzacarcxaiaabgcadfaaahfjbcl58.dCKbaaaeaxaaawbeaaafbjbdF72.aJdMaJaoamK198.aaeab377.adbga",
  "aadbOadbGadbgaaadboa57.adb67.bFczf86.bfb640.aBc89.gvixitlmacabl94.bjfjfnakf89.gQe70.jEaldldacP",
  "bekRdzfkc62.b65.aCbkfjfnbEW77.cUa116.h60.coc60.gQbkhQe534.bfbLbfbhaaaaaaaEb53.aoanbfasbcaiqxhU",
  "qbbAamcGoGo140.d663.yku1812.bFa349.eSaaeab56.gbnxigagagagagagagaga126.Hza89.l214.zle63.a86.b10",
  "3.eQa94.a84.lUa29293.c55.i348.t184.h203.ebaaaex59.cjf56.h70.hlf116.kDc78.akdGa55.inbjb103.xBjf",
  "bfbfigaga60.d126.bjf11172.lwdW8452.366.b106.Lgleezaeaaababa125.p445.b54.gaFPfYasaddea135.d190.",
  "cfbfbfbccgagmbblazasabaobnH123.ecdSc88.amcaUT130.CcWoBdJiDeQeDaKdnP158.bjfJdJdNhZklaoagabakaoa",
  "gab67.311.ivjhxfaPai69.fbaaRabcabwa72.hiVsabeGcAea64.56.dtbXabehacaCbcdjgig64.FMdli54.cCbAezgd",
  "lg80.73.55.YmYgThj294.EaPacbb78.NhPvzLBtwi78.dJi62.aemygjf53.arhMi96.atkraR65.gaaadaoakf59.ejf",
  "dahbbbvagabaeajbbbcbafaegbgce139.92.aeD72.hj166.54.bLH69.kjfms58.fj54.Abodw185.60.100.83.lhbab",
  "habaDabblij70.hbTbkA72.h83.m73.263.iaSanjCcFbvan73.gabaRcaabaihjffabaKabafgj310.y183.aoXm923.1",
  "02.111.aek196.2636.99.m1071.4049.583.8633.569.gEajd81.ajfDbfj70.jjagaues688.91.101.75.d57.gq64",
  ".ekbn6136.h1238.Pi8935.dagaba291.Scqdh396.2308.107.emcigjbd4704.Tbwi116.60.246.jMb74.h112.u70.",
  "154.tl87.iy135.85.a71.abbabbbdalaaaga65.adbhagaBadaeaacga340.b292.b702.oeao1104.E225.gaqbgabae",
  "213.Scnbjdb320.Eq58.ea1248.gadabaoa197.bpO76.djdb785.68.76.61.194.daAabaabaajadaaaafadaaaaaaca",
  "baabaaaaaaaaaabaabdagadadaaajaqecaeaqZb270.Rd100.loboaoaKj174.56.CmRdigbnf154.984.epcmc116.l89",
  ".gldaold56.hjfNhDbb78.340.lnbececgiCckefjjfhhgi147.a55.Kj1030.42720.F4153.g222.b5762.n7473.310",
  "3.542.1506.4939.716213.240."]

/-- A character that stands for itself in a quoted text. -/
def isPrintable (c : Char) : Bool := printableChars.contains c

end RegexCorpus.Text
