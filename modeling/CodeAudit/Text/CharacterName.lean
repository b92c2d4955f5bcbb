import CodeAudit.Text.Table

/-!
# Characters by name

A text literal may spell a character by its name in the Unicode standard. The table covers the control
characters, Latin up to U+017F, Greek and Cyrillic letters, punctuation, currency signs, letterlike
symbols, arrows, mathematical operators, box drawing, geometric shapes, miscellaneous symbols and the
faces of U+1F600; any other name is unknown.

## Main definitions

* `nameRuns` — the names, as text, with abbreviations.
* `characterNamed?` — the character with a given name, in capitals or small letters.
-/

namespace CodeAudit.Text

/-- A text of several lines without the blanks at the starts of lines. -/
def unwrapped (s : String) : List Char :=
  (pieces '\n' s.toList).flatMap (·.dropWhile (· == ' '))

/-- The words for which a letter or a sign stands in `nameRuns`: each stands behind it. -/
def frequentWords : List (Char × List Char) :=
  let items := pieces ';' (unwrapped
    "aCAPITAL LETTER ;b WITH ;cRIGHT;d AND ;eSMALL;fHORIZONTAL;gVERTICAL;hLEFT;iDOUBLE;jRIGHTWARDS;k ARROW
     ;lLEFTWARDS;mHEAVY;nBLACK;oLIGHT;p EQUAL TO;qWHITE;r SIGN;sGREATER-THAN;tLESS-THAN;uCIRCUMFLEX;vDOWN
     ;wPOINTING ;xDOWNWARDS;yCAPITAL ;zSTROKE;! SINGLE;#FACE;$NORMAL SUBGROUP;%TRIANGLE;&DIAERESIS;( SYMBOL
     ;)SQUARE;* OF;,CIRCLE;.UPWARDS;:ACUTE;<LOWER;= MARK;>UPPER;?NOT ;@EQUIVALENT;^SMILING;_LETTER;~CEDILLA")
  items.filterMap fun item => item.head?.map fun sign => (sign, item.tail)

/-- The names of runs of successive code points. A run begins with the code point of its first
character and ends with a slash. A name stands behind a semicolon as a digit and words: the digit says how many
words it shares with the start of the name before, and a plus that it ends like that one. Some characters have
several names. -/
def nameRuns : String :=
  "0;0NULL;0START* HEADING;2TEXT;0END+;2TRANSMISSION;0ENQUIRY;0ACKNOWLEDGE;0ALERT;0BACKSPACE
   ;0CHARACTER TABULATION;0LINE FEED;1TABULATION;0FORM FEED;0CARRIAGE RETURN;0SHIFT OUT;1IN
   ;0DATA LINK ESCAPE;0DEVICE CONTROL ONE;2TWO;2THREE;2FOUR;0NEGATIVE ACKNOWLEDGE;0SYNCHRONOUS IDLE
   ;0END* TRANSMISSION BLOCK;0CANCEL;0END* MEDIUM;0SUBSTITUTE;0ESCAPE;0INFORMATION SEPARATOR FOUR;2THREE
   ;2TWO;2ONE/20;0SPACE;0EXCLAMATION=;0QUOTATION+;0NUMBERr;0DOLLAR+;0PERCENT+;0AMPERSAND;0APOSTROPHE
   ;0h PARENTHESIS;0c+;0ASTERISK;0PLUSr;0COMMA;0HYPHEN-MINUS;0FULL STOP;0SOLIDUS;0DIGIT ZERO;1ONE;1TWO
   ;1THREE;1FOUR;1FIVE;1SIX;1SEVEN;1EIGHT;1NINE;0COLON;0SEMICOLON;0tr;0EQUALS+;0s+;0QUESTION=
   ;0COMMERCIAL AT;0LATIN aA;3B;3C;3D;3E;3F;3G;3H;3I;3J;3K;3L;3M;3N;3O;3P;3Q;3R;3S;3T;3U;3V;3W;3X;3Y;3Z
   ;0h ) BRACKET;0REVERSE SOLIDUS;0c ) BRACKET;0u ACCENT;0LOW LINE;0GRAVE ACCENT;0LATIN e _ A;3B;3C;3D;3E
   ;3F;3G;3H;3I;3J;3K;3L;3M;3N;3O;3P;3Q;3R;3S;3T;3U;3V;3W;3X;3Y;3Z;0h CURLY BRACKET;0g LINE
   ;0c CURLY BRACKET;0TILDE/a0;0NO-BREAK SPACE;0INVERTED EXCLAMATION=;0CENTr;0POUND+;0CURRENCY+;0YEN+
   ;0BROKEN BAR;0SECTIONr;0&;0COPYRIGHTr;0FEMININE ORDINAL INDICATOR;0h-wi ANGLE QUOTATION=;0NOTr
   ;0SOFT HYPHEN;0REGISTEREDr;0MACRON;0DEGREEr;0PLUS-MINUS+;0SUPERSCRIPT TWO;1THREE;0: ACCENT;0MICROr
   ;0PILCROW+;0MIDDLE DOT;0~;0SUPERSCRIPT ONE;0MASCULINE ORDINAL INDICATOR;0c-wi ANGLE QUOTATION=
   ;0VULGAR FRACTION ONE QUARTER;3HALF;2THREE QUARTERS;0INVERTED QUESTION=;0LATIN aAbGRAVE;5:;5u;5TILDE;5&
   ;5RING ABOVE;3AE;3Cb~;3EbGRAVE;5:;5u;5&;3IbGRAVE;5:;5u;5&;3ETH;3NbTILDE;3ObGRAVE;5:;5u;5TILDE;5&
   ;0MULTIPLICATIONr;0LATIN aObz;3UbGRAVE;5:;5u;5&;3Yb:;3THORN;1e _ SHARP S;3AbGRAVE;5:;5u;5TILDE;5&
   ;5RING ABOVE;3AE;3Cb~;3EbGRAVE;5:;5u;5&;3IbGRAVE;5:;5u;5&;3ETH;3NbTILDE;3ObGRAVE;5:;5u;5TILDE;5&
   ;0DIVISIONr;0LATIN e _ Obz;3UbGRAVE;5:;5u;5&;3Yb:;3THORN;3Yb&;1aAbMACRON;1e+;1aAbBREVE;1e+;1aAbOGONEK
   ;1e+;1aCb:;1e+;1aCbu;1e+;1aCbDOT ABOVE;1e+;1aCbCARON;1e+;1aD+;1e+;1aDbz;1e+;1aEbMACRON;1e+;1aEbBREVE
   ;1e+;1aEbDOT ABOVE;1e+;1aEbOGONEK;1e+;1aEbCARON;1e+;1aGbu;1e+;1aGbBREVE;1e+;1aGbDOT ABOVE;1e+;1aGb~;1e+
   ;1aHbu;1e+;1aHbz;1e+;1aIbTILDE;1e+;1aIbMACRON;1e+;1aIbBREVE;1e+;1aIbOGONEK;1e+;1aIbDOT ABOVE
   ;1e _ DOTLESS I;1yLIGATURE IJ;1e+;1aJbu;1e+;1aKb~;1e+;3KRA;1aLb:;1e+;1aLb~;1e+;1aLbCARON;1e+
   ;1aLbMIDDLE DOT;1e+;1aLbz;1e+;1aNb:;1e+;1aNb~;1e+;1aNbCARON;1e+;4PRECEDED BY APOSTROPHE;1aENG;1e+
   ;1aObMACRON;1e+;1aObBREVE;1e+;1aObi :;1e+;1yLIGATURE OE;1e+;1aRb:;1e+;1aRb~;1e+;1aRbCARON;1e+;1aSb:;1e+
   ;1aSbu;1e+;1aSb~;1e+;1aSbCARON;1e+;1aTb~;1e+;1aTbCARON;1e+;1aTbz;1e+;1aUbTILDE;1e+;1aUbMACRON;1e+
   ;1aUbBREVE;1e+;1aUbRING ABOVE;1e+;1aUbi :;1e+;1aUbOGONEK;1e+;1aWbu;1e+;1aY+;1e+;1aYb&;3Zb:;1e+
   ;1aZbDOT ABOVE;1e+;1aZbCARON;1e+;3LONG S/391;0GREEK aALPHA;3BETA;3GAMMA;3DELTA;3EPSILON;3ZETA;3ETA
   ;3THETA;3IOTA;3KAPPA;3LAMDA;3MU;3NU;3XI;3OMICRON;3PI;3RHO/3a3;0GREEK aSIGMA;3TAU;3UPSILON;3PHI;3CHI
   ;3PSI;3OMEGA;3IOTAbDIALYTIKA;3UPSILON+;1e _ ALPHAbTONOS;3EPSILON+;3ETA+;3IOTA+;3UPSILONbDIALYTIKAdTONOS
   ;3ALPHA;3BETA;3GAMMA;3DELTA;3EPSILON;3ZETA;3ETA;3THETA;3IOTA;3KAPPA;3LAMDA;3MU;3NU;3XI;3OMICRON;3PI
   ;3RHO;3FINAL SIGMA;3SIGMA;3TAU;3UPSILON;3PHI;3CHI;3PSI;3OMEGA;3IOTAbDIALYTIKA;3UPSILON+;3OMICRONbTONOS
   ;3UPSILON+;3OMEGA+/410;0CYRILLIC aA;3BE;3VE;3GHE;3DE;3IE;3ZHE;3ZE;3I;3SHORT I;3KA;3EL;3EM;3EN;3O;3PE
   ;3ER;3ES;3TE;3U;3EF;3HA;3TSE;3CHE;3SHA;3SHCHA;3HARDr;3YERU;3SOFTr;3E;3YU;3YA;1e _ A;3BE;3VE;3GHE;3DE
   ;3IE;3ZHE;3ZE;3I;3SHORT I;3KA;3EL;3EM;3EN;3O;3PE;3ER;3ES;3TE;3U;3EF;3HA;3TSE;3CHE;3SHA;3SHCHA;3HARDr
   ;3YERU;3SOFTr;3E;3YU;3YA/2000;0EN QUAD;0EM+;0EN SPACE;0EM+;0THREE-PER-EM+;0FOUR-PER-EM+;0SIX-PER-EM+
   ;0FIGURE+;0PUNCTUATION+;0THIN+;0HAIR+;0ZERO WIDTH SPACE;2NON-JOINER;2JOINER;0h-TO-c=;0c-TO-h+;0HYPHEN
   ;0NON-BREAKING HYPHEN;0FIGURE DASH;0EN+;0EM+;0f BAR;0i g LINE;1LOW+;0h! QUOTATION=;0c+;0SINGLE LOW-9+
   ;1HIGH-REVERSED-9+;0h i+;0c+;0i LOW-9+;1HIGH-REVERSED-9+;0DAGGER;0i DAGGER;0BULLET;0TRIANGULAR BULLET
   ;0ONE DOT LEADER;0TWO+;0f ELLIPSIS;0HYPHENATION POINT;0LINE SEPARATOR;0PARAGRAPH+;0h-TO-c EMBEDDING
   ;0c-TO-h+;0POP DIRECTIONAL FORMATTING;0h-TO-c OVERRIDE;0c-TO-h+;0NARROW NO-BREAK SPACE;0PER MILLEr
   ;1TEN THOUSANDr;0PRIME;0i PRIME;0TRIPLE+;0REVERSED+;1i PRIME;1TRIPLE+;0CARET
   ;0SINGLE h-wANGLE QUOTATION=;1c-POINTING+;0REFERENCE=;0i EXCLAMATION=;0INTERROBANG;0OVERLINE;0UNDERTIE
   ;0CHARACTER TIE;0CARET INSERTION POINT;0ASTERISM;0HYPHEN BULLET;0FRACTION SLASH;0h ) BRACKETbQUILL;0c+
   ;0i QUESTION=;0QUESTION EXCLAMATION+;0EXCLAMATION QUESTION+;0TIRONIANr ET;0REVERSED PILCROWr
   ;0n l BULLET;1j+;0LOW ASTERISK;0REVERSED SEMICOLON;0CLOSE UP;0TWO ASTERISKS ALIGNED VERTICALLY
   ;0COMMERCIAL MINUSr;0SWUNG DASH;0INVERTED UNDERTIE;0FLOWER PUNCTUATION=;0THREE DOT PUNCTUATION
   ;0QUADRUPLE PRIME;0FOUR DOT PUNCTUATION;0FIVE+;0TWO+;0FOUR DOT=;0DOTTED CROSS;0TRICOLON;0g FOUR DOTS
   /20a0;0EURO-CURRENCYr;0COLON+;0CRUZEIRO+;0FRENCH FRANCr;0LIRAr;0MILL+;0NAIRA+;0PESETA+;0RUPEE+;0WON+
   ;0NEW SHEQELr;0DONGr;0EURO+;0KIP+;0TUGRIK+;0DRACHMA+;0GERMAN PENNYr;0PESOr;0GUARANI+;0AUSTRAL+
   ;0HRYVNIA+;0CEDI+;0LIVRE TOURNOISr;0SPESMILOr;0TENGE+;0INDIAN RUPEEr;0TURKISH LIRA+;0NORDIC=+;0MANATr
   ;0RUBLE+;0LARI+;0BITCOIN+;0SOM+/2100;0ACCOUNT*;0ADDRESSED TO THE SUBJECT;0i-STRUCK yC;0DEGREE CELSIUS
   ;0CENTRE LINE(;0CARE*;0CADA UNA;0EULER CONSTANT;0SCRUPLE;0DEGREE FAHRENHEIT;0SCRIPT e G;1yH;0n-_+
   ;0i-STRUCK+;0PLANCK CONSTANT;2OVER TWO PI;0SCRIPT yI;0n-_+;0SCRIPT yL;1e+;0L B BAR(;0i-STRUCK yN
   ;0NUMEROr;0SOUND RECORDING COPYRIGHT;0SCRIPT yP;0i-STRUCK+;2Q;0SCRIPT yR;0n-_+;0i-STRUCK+
   ;0PRESCRIPTION TAKE;0RESPONSE;0SERVICE=;0TELEPHONEr;0TRADE=r;0VERSICLE;0i-STRUCK yZ;0OUNCEr;0OHM+
   ;0INVERTED OHMr;0n-_ yZ;0TURNED GREEK e _ IOTA;0KELVINr;0ANGSTROM+;0SCRIPT yB;0n-_ yC;0ESTIMATED(
   ;0SCRIPT e E;1CAPITAL+;2F;0TURNED+;0SCRIPT yM;1e O;0ALEF(;0BET+;0GIMEL+;0DALET+;0INFORMATION SOURCE
   ;0ROTATED yQ;0FACSIMILEr;0i-STRUCK e PI;2GAMMA;1CAPITAL+;2PI;1N-ARY SUMMATION;0TURNED SANS-SERIF yG;3L
   ;0REVERSED+;0TURNED SANS-SERIF yY;0i-STRUCK ITALIC yD;2e+;3E;3I;3J;0PROPERTY LINE;0TURNED AMPERSAND
   ;0PERr;0AKTIESELSKAB;0TURNED e F;0SYMBOL FOR SAMARITAN SOURCE/2190;0lk;0.+;0j+;0x+;0h ck;0UP v+
   ;0NORTH WEST+;1EAST+;0SOUTH+;1WEST+;0lkbz;0j+;0l WAVEk;0j+;0l TWO HEADEDk;0.+;0j+;0x+;0lkbTAIL;0j+
   ;0lk FROM BAR;0.+;0j+;0x+;0UP vkbBASE;0lkbHOOK;0j+;0lkbLOOP;0j+;0h c WAVEk;2ARROWbz;0x ZIGZAGk
   ;0.kbTIP l;4j;0xkbTIP l;4j;0jkbCORNER x;0xkbCORNER l;0ANTICLOCKWISE TOP SEMICIRCLEk;0CLOCKWISE+
   ;0NORTH WESTk TO LONG BAR;0lk TO BAR OVER jk TO BAR;0ANTICLOCKWISE OPEN ,k;0CLOCKWISE+
   ;0l HARPOONbBARB .;4x;0. HARPOONbBARB j;4l;0j HARPOONbBARB .;4x;0x HARPOONbBARB j;4l;0jk OVER lk
   ;0.k l* xk;0lk OVER jk;1PAIRED ARROWS;0.+;0j+;0x+;0l HARPOON OVER j HARPOON;0j HARPOON OVER l+;0l ikbz
   ;0h c ikbz;0j ikbz;0l ik;0.+;0j+;0x+;0h c ik;0UP v+;0NORTH WEST+;1EAST+;0SOUTH+;1WEST+;0l TRIPLEk;0j+
   ;0l SQUIGGLE+;0j+;0.kbi z;0x+;0l DASHEDk;0.+;0j+;0x+;0lk TO BAR;0j+;0l qk;0.+;0j+;0x+;0. qk FROM BAR
   ;3ON PEDESTAL;5WITH f BAR;6g+;2ik;4ON PEDESTAL;0j qk FROM WALL;0NORTH WESTk TO CORNER;0SOUTH EAST+
   ;0UP v qk;0ckbe ,;0xk l* .k;0THREE j ARROWS;0lkbg z;0j+;0h ckbg z;0lkbi+;0j+;0h ckbi g z
   ;0l OPEN-HEADEDk;0j+;0h c OPEN-HEADEDk;0FOR ALL;0COMPLEMENT;0PARTIAL DIFFERENTIAL;0THERE EXISTS
   ;1DOES ?EXIST;0EMPTY SET;0INCREMENT;0NABLA;0ELEMENT*;0?AN ELEMENT*;0e ELEMENT*;0CONTAINS AS MEMBER
   ;0DOES ?CONTAIN AS MEMBER;0e CONTAINS AS MEMBER;0END* PROOF;0N-ARY PRODUCT;1COPRODUCT;1SUMMATION
   ;0MINUSr;0MINUS-OR-PLUS+;0DOT PLUS;0DIVISION SLASH;0SET MINUS;0ASTERISK OPERATOR;0RING+;0BULLET+
   ;0) ROOT;0CUBE+;0FOURTH+;0PROPORTIONAL TO;0INFINITY;0c ANGLE;0ANGLE;0MEASURED ANGLE;0SPHERICAL+
   ;0DIVIDES;0DOES ?DIVIDE;0PARALLEL TO;0?PARALLEL TO;0LOGICAL AND;1OR;0INTERSECTION;0UNION;0INTEGRAL
   ;0i INTEGRAL;0TRIPLE+;0CONTOUR+;0SURFACE+;0VOLUME+;0CLOCKWISE+;1CONTOUR INTEGRAL;0ANTICLOCKWISE+
   ;0THEREFORE;0BECAUSE;0RATIO;0PROPORTION;0DOT MINUS;0EXCESS;0GEOMETRIC PROPORTION;0HOMOTHETIC
   ;0TILDE OPERATOR;0REVERSED TILDE;0INVERTED LAZY S;0SINE WAVE;0WREATH PRODUCT;0?TILDE;0MINUS+
   ;0ASYMPTOTICALLYp;0?ASYMPTOTICALLYp;0APPROXIMATELYp;1BUT ?ACTUALLYp;0NEITHER APPROXIMATELY NOR+
   ;0ALMOSTp;0?ALMOSTp;0ALMOST EQUAL ORp;0TRIPLE TILDE;0ALLp;0@ TO;0GEOMETRICALLY @ TO;0DIFFERENCE BETWEEN
   ;0APPROACHES THE LIMIT;0GEOMETRICALLYp;0APPROXIMATELYp OR THE IMAGE*;0IMAGE* OR APPROXIMATELYp
   ;0COLON EQUALS;0EQUALS COLON;0RING INp;1EQUAL TO;0CORRESPONDS TO;0ESTIMATES;0EQUIANGULAR TO
   ;0STAR EQUALS;0DELTAp;0EQUAL TO BY DEFINITION;0MEASURED BY;0QUESTIONEDp;0NOT+;0IDENTICAL TO
   ;0?IDENTICAL TO;0STRICTLY @+;0t ORp;0s+;0t OVER+;0s+;0t BUT NOTp;0s+;0MUCH t;1s;0BETWEEN;0?@ TO;1t;1s
   ;0NEITHER t NORp;1s+;0t OR @ TO;0s+;0NEITHER t NOR @ TO;1s+;0t OR s;0s OR t;0NEITHER t NOR s;1s NOR t
   ;0PRECEDES;0SUCCEEDS;0PRECEDES ORp;0SUCCEEDS+;0PRECEDES OR @+;0SUCCEEDS+;0DOES ?PRECEDE;2SUCCEED
   ;0SUBSET*;0SUPERSET+;0?A SUBSET*;2SUPERSET+;0SUBSET* ORp;0SUPERSET+;0NEITHER A SUBSET* NORp;2SUPERSET+
   ;0SUBSET*bNOTp;0SUPERSET+;0MULTISET;1MULTIPLICATION;1UNION;0) IMAGE*;1ORIGINAL+;1IMAGE* ORp;1ORIGINAL+
   ;1CAP;1CUP;0CIRCLED PLUS;1MINUS;1TIMES;1DIVISION SLASH;1DOT OPERATOR;1RING+;1ASTERISK+;1EQUALS;1DASH
   ;0SQUARED PLUS;1MINUS;1TIMES;1DOT OPERATOR;0c TACK;0h+;0v+;0UP+;0ASSERTION;0MODELS;0TRUE;0FORCES
   ;0TRIPLE g BAR c TURNSTILE;0i g BAR i c TURNSTILE;0DOES ?PROVE;0?TRUE;0DOES ?FORCE
   ;0NEGATED i g BAR i c TURNSTILE;0PRECEDES UNDER RELATION;0SUCCEEDS+;0$*;0CONTAINS AS $;0$* ORp
   ;0CONTAINS AS $ ORp;0ORIGINAL*;0IMAGE+;0MULTIMAP;0HERMITIAN CONJUGATE MATRIX;0INTERCALATE;0XOR;0NAND
   ;0NOR;0c ANGLEbARC;1%;0N-ARY LOGICAL AND;2OR;1INTERSECTION;1UNION;0DIAMOND OPERATOR;0DOT+;0STAR+
   ;0DIVISION TIMES;0BOWTIE;0h NORMAL FACTOR SEMIDIRECT PRODUCT;0c+;0h SEMIDIRECT PRODUCT;0c+
   ;0REVERSED TILDE EQUALS;0CURLY LOGICAL OR;2AND;0i SUBSET;1SUPERSET;1INTERSECTION;1UNION;0PITCHFORK
   ;0EQUALdPARALLEL TO;0tbDOT;0s+;0VERY MUCH t;2s;0tp OR s;0sp OR t;0EQUAL TO OR t;3s;3PRECEDES;3SUCCEEDS
   ;0DOES ?PRECEDE OR EQUAL;2SUCCEED+;0?) IMAGE* ORp;2ORIGINAL+;0) IMAGE* OR NOT+;1ORIGINAL+;0t BUT ?@ TO
   ;0s+;0PRECEDES+;0SUCCEEDS+;0?$*;0DOES ?CONTAIN AS $;0?$* ORp;0DOES ?CONTAIN AS $ OR EQUAL;0g ELLIPSIS
   ;0MIDLINE f ELLIPSIS;0UP c DIAGONAL ELLIPSIS;0v+;0ELEMENT*bLONG f z;3g BAR AT END* f z
   ;0e ELEMENT*bg BAR AT END* f z;0ELEMENT*bDOT ABOVE;3OVERBAR;0e ELEMENT*bOVERBAR;0ELEMENT*bUNDERBAR
   ;3TWO f STROKES;0CONTAINSbLONG f z;2g BAR AT END* f z;0e CONTAINSbg BAR AT END* f z;0CONTAINSbOVERBAR
   ;0e CONTAINSbOVERBAR;0Z NOTATION BAG MEMBERSHIP/2500;0BOX DRAWINGS o f;2m+;2o g;2m+;2o TRIPLE DASH f
   ;2m+;2o TRIPLE DASH g;2m+;2o QUADRUPLE DASH f;2m+;2o QUADRUPLE DASH g;2m+;2o vdc;2v odc m;3mdc o;2m vdc
   ;2o vdh;2v odh m;3mdh o;2m vdh;2o UPdc;2UP odc m;3mdc o;2m UPdc;2o UPdh;2UP odh m;3mdh o;2m UPdh;2o gdc
   ;2g odc m;2UP mdc v o;2v mdc UP+;2g mdc o;2v odc UP m;2UP odc v+;2m gdc;2o gdh;2g odh m;2UP mdh v o
   ;2v mdh UP+;2g mdh o;2v odh UP m;2UP odh v+;2m gdh;2o vdf;2h mdc v o;2c mdh+;2v odf m;3mdf o;2c odh v m
   ;2h odc+;2m vdf;2o UP+;2h mdc UP o;2c mdh+;2UP odf m;3mdf o;2c odh UP m;2h odc+;2m UPdf;2o g+
   ;2h mdc g o;2c mdh+;2g odf m;2UP mdv f o;2v mdUP+;2g mdf o;2h UP mdc v o;2c UP mdh+;2h v mdc UP+
   ;2c v mdh+;2v odUP f m;2UP odv+;2c odh g+;2h odc+;2m gdf;2o i DASH+;2m+;2o i DASH g;2m+;2i f;3g;2v!dc i
   ;3idc!;2i vdc;2v!dh i;3idh!;2i vdh;2UP!dc i;3idc!;2i UPdc;2UP!dh i;3idh!;2i UPdh;2g!dc i;3idc!;2i gdc
   ;2g!dh i;3idh!;2i gdh;2v!df i;3idf!;2i vdf;2UP!df i;3idf!;2i UPdf;2g!df i;3idf!;2i gdf;2o ARC vdc;6h
   ;4UP+;6c;3DIAGONAL > c TO < h;5h TO < c;4CROSS;3h;3UP;3c;3v;2m h;3UP;3c;3v;2o hdm c;3UPdm v;2m hdo c
   ;3UPdo v;0> HALF BLOCK;0< ONE EIGHTH BLOCK;2QUARTER+;1THREE EIGHTHS+;1HALF BLOCK;1FIVE EIGHTHS BLOCK
   ;1THREE QUARTERS+;1SEVEN EIGHTHS+;0FULL BLOCK;0h SEVEN EIGHTHS BLOCK;1THREE QUARTERS+;1FIVE EIGHTHS+
   ;1HALF BLOCK;1THREE EIGHTHS BLOCK;1ONE QUARTER+;2EIGHTH+;0c HALF BLOCK;0o SHADE;0MEDIUM+;0DARK+
   ;0> ONE EIGHTH BLOCK;0c+;0QUADRANT < h;2c;1> h;3AND < hd< c;5c;4> cd< h;8c;2c;3AND < h;6AND < c;0n )
   ;0q+;2WITH ROUNDED CORNERS;2CONTAINING n e );0)bf FILL;2g+;2ORTHOGONAL CROSSHATCH FILL;2> h TO < c FILL
   ;3c TO < h+;2DIAGONAL CROSSHATCH FILL;0n e );0q+;0n RECTANGLE;0q+;0n g RECTANGLE;0q+;0n PARALLELOGRAM
   ;0q+;0n UP-w%;0q+;0n UP-we %;0q+;0n c-w%;0q+;0n c-we %;0q+;0n c-wPOINTER;0q+;0n v-w%;0q+;0n v-we %;0q+
   ;0n h-w%;0q+;0n h-we %;0q+;0n h-wPOINTER;0q+;0n DIAMOND;0q+;2CONTAINING n e DIAMOND;0FISHEYE;0LOZENGE
   ;0q ,;0DOTTED+;0,bg FILL;0BULLSEYE;0n ,;0,bh HALF n;2c+;2<+;2>+;3c QUADRANT n;2ALL BUT > h QUADRANT n
   ;0h HALF n ,;0c+;0INVERSE BULLET;1q ,;0> HALF INVERSE q ,;0<+;0> h QUADRANT CIRCULAR ARC;1c+;0<+;1h+
   ;0> HALF ,;0<+;0n < c %;2h+;1>+;2c+;0q BULLET;0)bh HALF n;2c+;2> h DIAGONAL HALF n;2< c+
   ;0q )bg BISECTING LINE;1UP-w%bDOT;0UP-w%bh HALF n;3c+;0LARGE ,;0q )b> h QUADRANT;3<+;4c+;3>+;1,b> h+
   ;3<+;4c+;3>+;0> h %;1c+;0< h+;0q MEDIUM );0n+;0q MEDIUM e );0n+;0< c %;0n SUNbRAYS;0CLOUD;0UMBRELLA
   ;0SNOWMAN;0COMET;0n STAR;0q+;0LIGHTNING;0THUNDERSTORM;0SUN;0ASCENDING NODE;0DESCENDING+;0CONJUNCTION
   ;0OPPOSITION;0n TELEPHONE;0q+;0BALLOT BOX;2WITH CHECK;3X;0SALTIRE;0UMBRELLAbRAIN DROPS;0HOT BEVERAGE
   ;0q SHOGI PIECE;0n+;0SHAMROCK;0REVERSED ROTATED FLORAL HEART BULLET;0n h wINDEX;1c+;0q h+;1UP+;1c+;1v+
   ;0SKULLdCROSSBONES;0CAUTIONr;0RADIOACTIVE+;0BIOHAZARD+;0CADUCEUS;0ANKH;0ORTHODOX CROSS;0CHI RHO
   ;0CROSS* LORRAINE;2JERUSALEM;0STARdCRESCENT;0FARSI(;0ADI SHAKTI;0HAMMERdSICKLE;0PEACE(;0YIN YANG
   ;0TRIGRAM FOR HEAVEN;2LAKE;2FIRE;2THUNDER;2WIND;2WATER;2MOUNTAIN;2EARTH;0WHEEL* DHARMA;0q FROWNING #
   ;1^+;0n+;0q SUNbRAYS;0FIRST QUARTER MOON;0LAST+;0MERCURY;0FEMALEr;0EARTH;0MALEr;0JUPITER;0SATURN
   ;0URANUS;0NEPTUNE;0PLUTO;0ARIES;0TAURUS;0GEMINI;0CANCER;0LEO;0VIRGO;0LIBRA;0SCORPIUS;0SAGITTARIUS
   ;0CAPRICORN;0AQUARIUS;0PISCES;0q CHESS KING;2QUEEN;2ROOK;2BISHOP;2KNIGHT;2PAWN;0n CHESS KING;2QUEEN
   ;2ROOK;2BISHOP;2KNIGHT;2PAWN;1SPADE SUIT;0q HEART+;1DIAMOND+;0n CLUB+;0q SPADE+;0n HEART+;1DIAMOND+
   ;0q CLUB+;0HOT SPRINGS;0QUARTER NOTE;0EIGHTH+;0BEAMED EIGHTH NOTES;1SIXTEENTH+;0MUSIC FLATr;1NATURAL+
   ;1SHARP+;0WEST SYRIAC CROSS;0EAST+;0UNIVERSAL RECYCLING(;0RECYCLING( FOR TYPE-1 PLASTICS;3TYPE-2+
   ;3TYPE-3+;3TYPE-4+;3TYPE-5+;3TYPE-6+;3TYPE-7+;3GENERIC MATERIALS;0n UNIVERSAL RECYCLING(
   ;0RECYCLED PAPER(;0PARTIALLY-RECYCLED+;0PERMANENT PAPERr;0WHEELCHAIR(;0DIE #-1;1#-2;1#-3;1#-4;1#-5;1#-6
   ;0q ,bDOT c;3TWO DOTS;0n ,bq DOT c;3TWO q DOTS;0MONOGRAM FOR YANG;2YIN;0DIGRAM FOR GREATER YANG
   ;2LESSER YIN;3YANG;2GREATER YIN;0q FLAG;0n+;0HAMMERdPICK;0ANCHOR;0CROSSED SWORDS;0STAFF* AESCULAPIUS
   ;0SCALES;0ALEMBIC;0FLOWER;0GEAR;0STAFF* HERMES;0ATOM(;0FLEUR-DE-LIS;0OUTLINED q STAR
   ;0THREE LINES CONVERGING c;3h;0WARNINGr;0HIGH VOLTAGEr;0DOUBLED FEMALE+;1MALE+
   ;0INTERLOCKED FEMALEdMALEr;0MALEdFEMALEr;1WITH z+;3AND MALEdFEMALEr;0g MALEbzr;0f+;0MEDIUM q ,;1n+
   ;1e q ,;0MARRIAGE(;0DIVORCE+;0UNMARRIED PARTNERSHIP(;0COFFIN;0FUNERAL URN;0NEUTER;0CERES;0PALLAS;0JUNO
   ;0VESTA;0CHIRON;0n MOON LILITH;0SEXTILE;0SEMISEXTILE;0QUINCUNX;0SESQUIQUADRATE;0SOCCER BALL;0BASEBALL
   ;0SQUARED KEY;0q DRAUGHTS MAN;2KING;0n DRAUGHTS MAN;2KING;0SNOWMAN WITHOUT SNOW;0SUN BEHIND CLOUD;0RAIN
   ;0n SNOWMAN;0THUNDER CLOUDdRAIN;0TURNED q SHOGI PIECE;1n+;0q DIAMOND IN );0CROSSING LANES;0DISABLED CAR
   ;0OPHIUCHUS;0PICK;0CAR SLIDING;0HELMETbq CROSS;0CIRCLED CROSSING LANES;0CHAINS;0NO ENTRY
   ;0ALTERNATE ONE-WAY h WAY TRAFFIC;0n TWO-WAY+;0q+;0n h LANE MERGE;0q+;0DRIVE SLOWr;0m q v-w%
   ;0h CLOSED ENTRY;0SQUARED SALTIRE;0FALLING DIAGONAL IN q , IN n );0n TRUCK;0RESTRICTED h ENTRY-1
   ;2ENTRY-2;0ASTRONOMICAL( FOR URANUS;0m ,bzdTWO DOTS ABOVE;0PENTAGRAM;0c-HANDED INTERLACED PENTAGRAM
   ;0h-HANDED+;0INVERTED PENTAGRAM;0n CROSS ON SHIELD;0SHINTO SHRINE;0CHURCH;0CASTLE;0HISTORIC SITE
   ;0GEAR WITHOUT HUB;1WITH HANDLES;0MAP( FOR LIGHTHOUSE;0MOUNTAIN;0UMBRELLA ON GROUND;0FOUNTAIN
   ;0FLAG IN HOLE;0FERRY;0SAILBOAT;0) FOUR CORNERS;0SKIER;0ICE SKATE;0PERSONbBALL;0TENT;0JAPANESE BANK(
   ;0HEADSTONE GRAVEYARD+;0FUEL PUMP;0CUP ON n );0q FLAGbf MIDDLE n STRIPE/1f600;0GRINNING #;2WITH ^ EYES
   ;0#bTEARS* JOY;0^ #bOPEN MOUTH;5AND ^ EYES;6COLD SWEAT;6TIGHTLY-CLOSED EYES;3HALO;3HORNS;0WINKING #
   ;0^ #b^ EYES;0# SAVOURING DELICIOUS FOOD;0RELIEVED #;0^ #bHEART-SHAPED EYES;3SUNGLASSES;0SMIRKING #
   ;0NEUTRAL+;0EXPRESSIONLESS+;0UNAMUSED+;0#bCOLD SWEAT;0PENSIVE #;0CONFUSED+;0CONFOUNDED+;0KISSING+
   ;0# THROWING A KISS;0KISSING #b^ EYES;3CLOSED+;0#bSTUCK-OUT TONGUE;4AND WINKING EYE
   ;5TIGHTLY-CLOSED EYES;0DISAPPOINTED #;0WORRIED+;0ANGRY+;0POUTING+;0CRYING+;0PERSEVERING+
   ;0#bLOOK* TRIUMPH;0DISAPPOINTED BUT RELIEVED #;0FROWNING #bOPEN MOUTH;0ANGUISHED #;0FEARFUL+;0WEARY+
   ;0SLEEPY+;0TIRED+;0GRIMACING+;0LOUDLY CRYING #;0#bOPEN MOUTH;0HUSHED #;0#bOPEN MOUTHdCOLD SWEAT
   ;1SCREAMING IN FEAR;0ASTONISHED #;0FLUSHED+;0SLEEPING+;0DIZZY+;0# WITHOUT MOUTH;1WITH MEDICAL MASK
   ;0GRINNING CAT #b^ EYES;0CAT #bTEARS* JOY;0^ CAT #bOPEN MOUTH;4HEART-SHAPED EYES;0CAT #bWRY SMILE
   ;0KISSING CAT #bCLOSED EYES;0POUTING CAT #;0CRYING+;0WEARY+;0SLIGHTLY FROWNING+;1^+;0UPSIDE-v #
   ;0#bROLLING EYES;2NO GOOD GESTURE;2OK GESTURE;0PERSON BOWING DEEPLY;0SEE-NO-EVIL MONKEY;0HEAR-NO-EVIL+
   ;0SPEAK-NO-EVIL+;0HAPPY PERSON RAISING ONE HAND;0PERSON RAISING BOTH HANDS IN CELEBRATION;1FROWNING
   ;1WITH POUTING #;2FOLDED HANDS/0;0NUL;0SOH;0STX;0ETX;0EOT;0ENQ;0ACK;0BEL;0BS;0f TABULATION;0NEW LINE
   ;0g TABULATION;0FF;0CR;0SO;0SI;0DLE;0DC1;0DC2;0DC3;0DC4;0NAK;0SYN;0ETB;0CAN;0EOM;0SUB;0ESC
   ;0FILE SEPARATOR;0GROUP SEPARATOR;0RECORD SEPARATOR;0UNIT SEPARATOR;0SP/7f;0DELETE/85;0NEXT LINE/a0
   ;0NBSP/ad;0SHY/200b;0ZWSP;0ZWNJ;0ZWJ;0LRM;0RLM/202a;0LRE;0RLE;0PDF;0LRO;0RLO;0NNBSP/205f;0MMSP;0WJ/feff
   ;0ZERO WIDTH NO-BREAK SPACE/9;0HT;0END* LINE;0VT/1c;0FS;0GS;0RS;0US/7f;0DEL/85;0NEL/feff;0BYTE ORDER=/9
   ;0TAB;0LF/feff;0BOM/a;0NL/feff;0ZWNBSP/a;0EOL"

/-- The words of a name that is written by what it does not share with the one before. -/
def nameAfter (before : List (List Char)) : List Char → List (List Char)
  | [] => before
  | shared :: rest =>
    let words := pieces ' ' (rest.takeWhile (· != '+'))
    let start := before.take (Table.hexDigit shared) ++ words
    if rest.contains '+' then start ++ before.drop start.length else start

/-- The names of successive code points from `code` on. -/
def namesFrom (code : Nat) (before : List (List Char)) : List (List Char) → List (String × Nat)
  | [] => []
  | item :: rest =>
    let words := nameAfter before item
    (String.ofList ([' '].intercalate words), code) :: namesFrom (code + 1) words rest

/-- The names of one run. -/
def namesOfRun (run : List Char) : List (String × Nat) :=
  match pieces ';' run with
  | code :: items =>
    namesFrom (Table.hexNumber code) [] (items.map fun item => item.flatMap fun c => (frequentWords.lookup c).getD [c])
  | [] => []

/-- All known names with their code points. -/
def characterNames : List (String × Nat) :=
  (pieces '/' (unwrapped nameRuns)).flatMap namesOfRun

/-- The character with a given name, which may be written in capitals or in small letters. -/
def characterNamed? (name : String) : Option Char :=
  (characterNames.lookup name.toUpper).map Char.ofNat

end CodeAudit.Text
